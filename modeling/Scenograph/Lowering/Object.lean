import Scenograph.Lowering.Plan
import Scenograph.Spelling.Statement

namespace Scenograph.Plan

def result : Expr :=
  .var "result"

def create (method : String) (args : List Expr) : Expr :=
  .call (.var "_c") method args

def declareResult (type : TypeRef) (value : Expr) : Statement :=
  .declare type "result" value

def setOnResult (name : String) (value : Literal) : Statement :=
  .setProperty result name (.lit value)

def visualProperties (v : VisualProperties Float) : List Statement :=
  (v.centerPoint.toList.map fun x => setOnResult "CenterPoint" (.vector3 x))
    ++ (v.offset.toList.map fun x => setOnResult "Offset" (.vector3 x))
    ++ (v.size.toList.map fun x => setOnResult "Size" (.vector2 x))
    ++ (v.opacity.toList.map fun x => setOnResult "Opacity" (.float x))
    ++ (v.rotation.toList.map fun x => setOnResult "RotationAngleInDegrees" (.float x))
    ++ (v.scale.toList.map fun x => setOnResult "Scale" (.vector3 x))
    ++ (v.isVisible.toList.map fun x => setOnResult "IsVisible" (.boolean x))

def startAnimation (p : Plan) (a : Animator) : Except Fault Statement := do
  return .eval (.call result "StartAnimation" [.text a.property, ← p.factoryCall a.animation])

def insertChild (p : Plan) (child : Nat) : Except Fault Statement := do
  return .eval (.call (.var "children") "InsertAtTop" [← p.factoryCall child])

def insertChildren (p : Plan) : List Nat → Except Fault (List Statement)
  | [] => .ok []
  | children => do
      return .declare (p.compositionType "VisualCollection") "children" (.property result "Children")
        :: (← children.mapM p.insertChild)

def setBrush (p : Plan) (brush : Nat) : Except Fault Statement := do
  return .setProperty result "Brush" (← p.factoryCall brush)

def setDuration (p : Plan) : Except Fault Statement := do
  return setOnResult "Duration" (.timeSpan (← p.target.ticks))

def easingArgs : Easing Float → List Expr
  | .linear => []
  | .hold => [create "CreateStepEasingFunction" []]
  | .cubicBezier first second =>
      [create "CreateCubicBezierEasingFunction" [.lit (.vector2 first), .lit (.vector2 second)]]

def insertKeyFrame (progress : Float) (value : Literal) (easing : Easing Float) : Statement :=
  .eval (.call result "InsertKeyFrame" (.number progress :: .lit value :: easingArgs easing))

def setReference (p : Plan) (r : NamedReference) : Except Fault Statement := do
  let target ← match r.target with
    | .node id => p.factoryCall id
    | .theme => .ok (.selfCall "EnsureThemeProperties" [])
  return .eval (.call result "SetReferenceParameter" [.text r.name, target])

def effectsSpace : String :=
  "Microsoft.Graphics.Canvas.Effects"

def canvasSpace : String :=
  "Microsoft.Graphics.Canvas"

def sourceParameter (p : Plan) (name : String) : Expr :=
  .construct (p.compositionType "CompositionEffectSourceParameter") [.text name]

def effectSettings (p : Plan) (holder : String) : Effect → List Statement
  | .gaussianBlur amount source =>
      (amount.toList.map fun x => .setProperty (.var holder) "BlurAmount" (.number x))
        ++ (source.toList.map fun s => .setProperty (.var holder) "Source" (p.sourceParameter s))
  | .composite mode sources =>
      .setProperty (.var holder) "Mode"
          (.enumMember (.importedValue canvasSpace "CanvasComposite") mode.name)
        :: sources.map fun s =>
          .eval (.call (.property (.var holder) "Sources") p.target.language.listAdd
            [p.sourceParameter s])

def setSource (p : Plan) (source : String × Nat) : Except Fault Statement := do
  return .eval (.call result "SetSourceParameter" [.text source.1, ← p.factoryCall source.2])

def effectBrush (p : Plan) (id : Nat) (type : TypeRef) : Except Fault (List Statement) := do
  let (effect, sources) ← p.graph.orderedSources id
  let effectType : TypeRef := .imported effectsSpace effect.kind.name
  let holder := lowerFirst effect.kind.name
  let bound ← sources.mapM p.setSource
  return .declare effectType holder (.construct effectType [])
    :: (p.effectSettings holder effect
      ++ [.declare (p.compositionType "CompositionEffectFactory") "effectFactory"
            (create "CreateEffectFactory" [.var holder]),
          declareResult type (.call (.var "effectFactory") "CreateBrush" [])]
      ++ bound)

def objectStatements (p : Plan) (id : Nat) (o : CompositionObject) :
    Except Fault (List Statement) := do
  let type := p.objectType o.kind
  match o with
  | .containerVisual properties children animators =>
      return declareResult type (create "CreateContainerVisual" [])
        :: (visualProperties properties ++ (← p.insertChildren children)
          ++ (← animators.mapM p.startAnimation))
  | .spriteVisual properties brush animators =>
      return declareResult type (create "CreateSpriteVisual" [])
        :: (visualProperties properties ++ (← brush.toList.mapM p.setBrush)
          ++ (← animators.mapM p.startAnimation))
  | .colorBrush color animators =>
      return declareResult type (create "CreateColorBrush" [.lit (.color color)])
        :: (← animators.mapM p.startAnimation)
  | .effectBrush _ _ => p.effectBrush id type
  | .surfaceBrush surface =>
      return [declareResult type (create "CreateSurfaceBrush" [← p.factoryCall surface])]
  | .imageSurface _ uri =>
      return [declareResult type
        (.staticCall type "StartLoadFromUri" [.construct (.builtIn .uri) [.text uri]])]
  | .scalarAnimation keyFrames =>
      return declareResult type (create "CreateScalarKeyFrameAnimation" [])
        :: (← p.setDuration)
        :: keyFrames.map fun k => insertKeyFrame k.progress (.float k.value) k.easing
  | .vector2Animation keyFrames =>
      return declareResult type (create "CreateVector2KeyFrameAnimation" [])
        :: (← p.setDuration)
        :: keyFrames.map fun k => insertKeyFrame k.progress (.vector2 k.value) k.easing
  | .expressionAnimation expression references =>
      return declareResult type (create "CreateExpressionAnimation" [.text expression])
        :: (← references.mapM p.setReference)

end Scenograph.Plan
