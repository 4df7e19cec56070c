import Scenograph.Composition.Effect
import Scenograph.Color
import Scenograph.Rendering.Context

namespace Scenograph

structure VisualProperties (α : Type) where
  centerPoint : Option (Vector3 α) := none
  offset : Option (Vector3 α) := none
  size : Option (Vector2 α) := none
  opacity : Option α := none
  rotation : Option α := none
  scale : Option (Vector3 α) := none
  isVisible : Option Bool := none
  deriving DecidableEq, Repr, Inhabited

structure InitialValues (α : Type) where
  anchor : Option (Vector2 α) := none
  position : Option (Vector2 α) := none
  scale : Option (Vector2 α) := none
  rotation : Option α := none
  opacity : Option α := none
  deriving DecidableEq, Repr

namespace InitialValues

variable {α : Type}

def take (values : InitialValues α) : Context α → InitialValues α
  | .anchor a => { values with anchor := some a.initial }
  | .position a => { values with position := some a.initial }
  | .scale a => { values with scale := some a.initial }
  | .rotation a => { values with rotation := some a.initial }
  | .opacity a => { values with opacity := some a.initial }
  | .blendMode _ | .composite _ => values

def ofContext (context : Context α) : InitialValues α :=
  context.items.foldl take {}

end InitialValues

def VisualProperties.ofContext {α : Type} [Scalar α] (context : Context α) : VisualProperties α :=
  let values := InitialValues.ofContext context
  let anchor := values.anchor.getD Vector2.zero
  let position := values.position.getD Vector2.zero
  { centerPoint := values.anchor.map Vector2.toVector3
    offset :=
      if values.position.isSome || values.anchor.isSome then
        some ⟨position.x - anchor.x, position.y - anchor.y, Scalar.ofNat 0⟩
      else none
    opacity := values.opacity
    rotation := values.rotation
    scale := values.scale.map fun s =>
      ⟨s.x / Scalar.ofNat 100, s.y / Scalar.ofNat 100, Scalar.ofNat 1⟩ }

structure Animator where
  property : String
  animation : Nat
  deriving DecidableEq, Repr

structure ProgressFrame (ν : Type) where
  progress : Float
  value : ν
  easing : Easing Float := .linear
  deriving DecidableEq, Repr

inductive Reference where
  | node (id : Nat)
  | theme
  deriving DecidableEq, Repr

structure NamedReference where
  name : String
  target : Reference
  deriving DecidableEq, Repr

structure BoundSource where
  name : String
  brush : Nat
  deriving DecidableEq, Repr

structure Edge where
  label : String
  target : Nat
  deriving DecidableEq, Repr

def NamedReference.edge? (r : NamedReference) : Option Edge :=
  match r.target with
  | .node id => some ⟨r.name, id⟩
  | .theme => none

inductive CompositionObject where
  | containerVisual (properties : VisualProperties Float) (children : List Nat)
      (animators : List Animator)
  | spriteVisual (properties : VisualProperties Float) (brush : Option Nat)
      (animators : List Animator)
  | colorBrush (color : Color) (animators : List Animator)
  | effectBrush (effect : Effect) (sources : List BoundSource)
  | surfaceBrush (surface : Nat)
  | imageSurface (assetId uri : String)
  | scalarAnimation (keyFrames : List (ProgressFrame Float))
  | vector2Animation (keyFrames : List (ProgressFrame (Vector2 Float)))
  | expressionAnimation (expression : String) (references : List NamedReference)
  deriving DecidableEq, Repr

namespace CompositionObject

def kind : CompositionObject → ObjectKind
  | .containerVisual .. => .containerVisual
  | .spriteVisual .. => .spriteVisual
  | .colorBrush .. => .colorBrush
  | .effectBrush .. => .effectBrush
  | .surfaceBrush .. => .surfaceBrush
  | .imageSurface .. => .imageSurface
  | .scalarAnimation .. => .scalarAnimation
  | .vector2Animation .. => .vector2Animation
  | .expressionAnimation .. => .expressionAnimation

def animators : CompositionObject → List Animator
  | .containerVisual _ _ animators => animators
  | .spriteVisual _ _ animators => animators
  | .colorBrush _ animators => animators
  | _ => []

def ownEdges : CompositionObject → List Edge
  | .containerVisual _ children _ => children.map fun c => ⟨"Children", c⟩
  | .spriteVisual _ brush _ => brush.toList.map fun b => ⟨"Brush", b⟩
  | .effectBrush _ sources => sources.map fun s => ⟨s.name, s.brush⟩
  | .surfaceBrush surface => [⟨"Surface", surface⟩]
  | .expressionAnimation _ references => references.filterMap NamedReference.edge?
  | _ => []

def edges (o : CompositionObject) : List Edge :=
  o.ownEdges ++ o.animators.map fun a => ⟨a.property, a.animation⟩

def referencesTheme : CompositionObject → Bool
  | .expressionAnimation _ references => references.any fun r => r.target == .theme
  | _ => false

end CompositionObject

end Scenograph
