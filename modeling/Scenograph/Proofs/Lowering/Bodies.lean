import Mathlib.Data.List.Basic
import Scenograph.Proofs.Lowering.Shape

namespace Scenograph.Plan

def localNames : List String :=
  ["result", "children", "effectFactory", lowerFirst EffectKind.composite.name,
    lowerFirst EffectKind.gaussianBlur.name]

def propertyNames : List String :=
  visualNames ++ ["Brush", "Duration", "BlurAmount", "Source", "Mode"]

def callNames : List String :=
  ["InsertAtTop", "InsertKeyFrame", "SetReferenceParameter", "SetSourceParameter", "StartAnimation"]

def creators : List String :=
  ["CreateColorBrush", "CreateContainerVisual", "CreateCubicBezierEasingFunction",
    "CreateEffectFactory", "CreateExpressionAnimation", "CreateScalarKeyFrameAnimation",
    "CreateSpriteVisual", "CreateStepEasingFunction", "CreateSurfaceBrush",
    "CreateVector2KeyFrameAnimation"]

inductive LocalType (p : Plan) : TypeRef → Prop where
  | object (kind : ObjectKind) : LocalType p (p.objectType kind)
  | children : LocalType p (p.compositionType "VisualCollection")
  | effectFactory : LocalType p (p.compositionType "CompositionEffectFactory")
  | effect (kind : EffectKind) : LocalType p (.imported effectsSpace kind.name)

inductive Operand (p : Plan) : Expr → Prop where
  | lit (value : Literal) : Operand p (.lit value)
  | held {name : String} (h : name ∈ localNames) : Operand p (.var name)
  | factory {i : Nat} {name : String} (h : p.nameOf i = .ok name) : Operand p (.selfCall name [])
  | theme : Operand p (.selfCall "EnsureThemeProperties" [])
  | create {method : String} {args : List Expr} (hmethod : method ∈ creators)
      (hargs : ∀ e ∈ args, Operand p e) : Operand p (create method args)
  | load (kind : ObjectKind) (uri : String) :
      Operand p (.staticCall (p.objectType kind) "StartLoadFromUri"
        [.construct (.builtIn .uri) [.text uri]])
  | children : Operand p (.property result "Children")
  | effect (kind : EffectKind) : Operand p (.construct (.imported effectsSpace kind.name) [])
  | mode (mode : CompositeMode) :
      Operand p (.enumMember (.importedValue canvasSpace "CanvasComposite") mode.name)
  | source (name : String) : Operand p (p.sourceParameter name)
  | brush : Operand p (.call (.var "effectFactory") "CreateBrush" [])

/-- The statements that set an object up. The one that appends to the sources of an effect is the only
one in which the language has a say. -/
inductive SetsUp (p : Plan) : Statement → Prop where
  | declare {type : TypeRef} {name : String} {value : Expr} (htype : p.LocalType type)
      (hname : name ∈ localNames) (hvalue : p.Operand value) : SetsUp p (.declare type name value)
  | setProperty {receiver name : String} {value : Expr} (hreceiver : receiver ∈ localNames)
      (hname : name ∈ propertyNames) (hvalue : p.Operand value) :
      SetsUp p (.setProperty (.var receiver) name value)
  | call {receiver method : String} {args : List Expr} (hreceiver : receiver ∈ localNames)
      (hmethod : method ∈ callNames) (hargs : ∀ e ∈ args, p.Operand e) :
      SetsUp p (.eval (.call (.var receiver) method args))
  | append {holder : String} (hholder : holder ∈ localNames) (source : String) :
      SetsUp p (.eval (.call (.property (.var holder) "Sources") p.target.language.listAdd
        [p.sourceParameter source]))

section Bodies

variable {p : Plan} {ss body : List Statement}

theorem holder_mem (kind : EffectKind) : lowerFirst kind.name ∈ localNames := by
  cases kind <;> simp [localNames]

theorem operand_factoryCall {i : Nat} {e : Expr} (h : p.factoryCall i = .ok e) : p.Operand e := by
  obtain ⟨name, hname, rfl⟩ := factoryCall_eq_ok h
  exact .factory hname

theorem setsUp_result (kind : ObjectKind) {value : Expr} (hvalue : p.Operand value)
    {rest : List Statement} (hrest : ∀ s ∈ rest, p.SetsUp s) :
    ∀ s ∈ declareResult (p.objectType kind) value :: rest, p.SetsUp s :=
  List.forall_mem_cons.2 ⟨.declare (.object kind) (by simp [localNames]) hvalue, hrest⟩

theorem setsUp_onResult {method : String} (hmethod : method ∈ callNames) {args : List Expr}
    (hargs : ∀ e ∈ args, p.Operand e) : p.SetsUp (.eval (.call result method args)) :=
  .call (by simp [localNames]) hmethod hargs

theorem setsUp_visualProperties (p : Plan) (v : VisualProperties Float) :
    ∀ s ∈ visualProperties v, p.SetsUp s := by
  intro s hs
  obtain ⟨name, hname, value, rfl⟩ := mem_visualProperties hs
  exact .setProperty (by simp [localNames]) (List.mem_append_left _ hname) (.lit value)

theorem setsUp_setDuration {s : Statement} (h : p.setDuration = .ok s) : p.SetsUp s := by
  rw [setDuration] at h
  obtain ⟨ticks, _, h⟩ := bind_eq_ok.1 h
  cases h
  exact .setProperty (by simp [localNames]) (by simp [propertyNames]) (.lit _)

theorem operand_easingArgs (p : Plan) (easing : Easing Float) :
    ∀ e ∈ easingArgs easing, p.Operand e := by
  cases easing with
  | linear => simp [easingArgs]
  | hold => exact List.forall_mem_singleton.2 (.create (by simp [creators]) (by simp))
  | cubicBezier first second =>
      refine List.forall_mem_singleton.2 (.create (by simp [creators]) ?_)
      exact List.forall_mem_cons.2 ⟨.lit _, List.forall_mem_singleton.2 (.lit _)⟩

theorem setsUp_insertKeyFrame (p : Plan) (progress : Float) (value : Literal)
    (easing : Easing Float) : p.SetsUp (insertKeyFrame progress value easing) :=
  setsUp_onResult (by simp [callNames]) (List.forall_mem_cons.2
    ⟨.lit _, List.forall_mem_cons.2 ⟨.lit value, p.operand_easingArgs easing⟩⟩)

theorem setsUp_effectSettings (p : Plan) {holder : String} (hholder : holder ∈ localNames)
    (effect : Effect) : ∀ s ∈ p.effectSettings holder effect, p.SetsUp s := by
  intro s hs
  cases effect with
  | gaussianBlur amount source =>
      rcases List.mem_append.1 hs with hs | hs
      · obtain ⟨amount, _, rfl⟩ := List.mem_map.1 hs
        exact .setProperty hholder (by simp [propertyNames]) (.lit _)
      · obtain ⟨source, _, rfl⟩ := List.mem_map.1 hs
        exact .setProperty hholder (by simp [propertyNames]) (.source source)
  | composite mode sources =>
      rcases List.mem_cons.1 hs with rfl | hs
      · exact .setProperty hholder (by simp [propertyNames]) (.mode mode)
      · obtain ⟨source, _, rfl⟩ := List.mem_map.1 hs
        exact .append hholder source

theorem setsUp_calling {α : Type} {f : α → Except Fault Statement} {items : List α}
    {target : α → Nat} (around : α → Expr → Statement)
    (hf : ∀ item, f item = do return around item (← p.factoryCall (target item)))
    (haround : ∀ item e, p.Operand e → p.SetsUp (around item e)) (h : items.mapM f = .ok ss) :
    ∀ s ∈ ss, p.SetsUp s := by
  intro s hs
  obtain ⟨item, e, he, rfl⟩ := mem_calling around hf h hs
  exact haround item e (operand_factoryCall he)

theorem setsUp_naming {method : String} (hmethod : method ∈ callNames) (name : String) {e : Expr}
    (he : p.Operand e) : p.SetsUp (.eval (.call result method [.text name, e])) :=
  setsUp_onResult hmethod (List.forall_mem_cons.2 ⟨.lit _, List.forall_mem_singleton.2 he⟩)

theorem setsUp_startAnimations {animators : List Animator}
    (h : animators.mapM p.startAnimation = .ok ss) : ∀ s ∈ ss, p.SetsUp s :=
  setsUp_calling
    (fun (a : Animator) e => .eval (.call result "StartAnimation" [.text a.property, e]))
    (fun _ => rfl) (fun a _ he => setsUp_naming (by simp [callNames]) a.property he) h

theorem setsUp_insertChildren {children : List Nat} (h : p.insertChildren children = .ok ss) :
    ∀ s ∈ ss, p.SetsUp s := by
  unfold insertChildren at h
  split at h
  · cases h
    simp
  · obtain ⟨calls, hcalls, h⟩ := bind_eq_ok.1 h
    cases h
    refine List.forall_mem_cons.2 ⟨.declare .children (by simp [localNames]) .children, ?_⟩
    exact setsUp_calling (fun _ e => .eval (.call (.var "children") "InsertAtTop" [e]))
      (fun _ => rfl) (fun _ _ he => .call (by simp [localNames]) (by simp [callNames])
        (List.forall_mem_singleton.2 he)) hcalls

theorem setsUp_setReferences {references : List NamedReference}
    (h : references.mapM p.setReference = .ok ss) : ∀ s ∈ ss, p.SetsUp s := by
  intro s hs
  obtain ⟨⟨name, target⟩, _, hstatement⟩ := exists_of_mem_right (mapM_eq_ok.1 h) hs
  cases target with
  | node i =>
      rw [setReference] at hstatement
      obtain ⟨e, he, hstatement⟩ := bind_eq_ok.1 hstatement
      cases hstatement
      exact setsUp_naming (by simp [callNames]) name (operand_factoryCall he)
  | theme =>
      cases hstatement
      exact setsUp_naming (by simp [callNames]) name .theme

theorem setsUp_effectBrush {i : Nat} (kind : ObjectKind)
    (h : p.effectBrush i (p.objectType kind) = .ok body) : ∀ s ∈ body, p.SetsUp s := by
  rw [effectBrush] at h
  obtain ⟨⟨effect, sources⟩, _, h⟩ := bind_eq_ok.1 h
  obtain ⟨links, hlinks, h⟩ := bind_eq_ok.1 h
  cases h
  have hholder := holder_mem effect.kind
  have hlink := setsUp_calling
    (fun (source : String × Nat) e =>
      .eval (.call result "SetSourceParameter" [.text source.1, e]))
    (fun _ => rfl) (fun source _ he => setsUp_naming (by simp [callNames]) source.1 he) hlinks
  refine List.forall_mem_cons.2 ⟨.declare (.effect effect.kind) hholder (.effect effect.kind),
    List.forall_mem_append.2 ⟨List.forall_mem_append.2
      ⟨p.setsUp_effectSettings hholder effect, ?_⟩, hlink⟩⟩
  refine List.forall_mem_cons.2 ⟨.declare .effectFactory (by simp [localNames]) ?_, ?_⟩
  · exact .create (by simp [creators]) (List.forall_mem_singleton.2 (.held hholder))
  · exact setsUp_result kind .brush (by simp)

theorem setsUp_objectStatements {i : Nat} {o : CompositionObject}
    (h : p.objectStatements i o = .ok body) : ∀ s ∈ body, p.SetsUp s := by
  cases o with
  | containerVisual properties children animators =>
      obtain ⟨inserts, hinserts, h⟩ := bind_eq_ok.1 h
      obtain ⟨animations, hanimations, h⟩ := bind_eq_ok.1 h
      cases h
      exact setsUp_result _ (.create (by simp [creators]) (by simp)) (List.forall_mem_append.2
        ⟨List.forall_mem_append.2 ⟨p.setsUp_visualProperties properties,
          setsUp_insertChildren hinserts⟩, setsUp_startAnimations hanimations⟩)
  | spriteVisual properties brush animators =>
      obtain ⟨sets, hsets, h⟩ := bind_eq_ok.1 h
      obtain ⟨animations, hanimations, h⟩ := bind_eq_ok.1 h
      cases h
      have hset := setsUp_calling (fun _ e => .setProperty result "Brush" e) (fun _ => rfl)
        (fun _ _ he => .setProperty (by simp [localNames]) (by simp [propertyNames]) he) hsets
      exact setsUp_result _ (.create (by simp [creators]) (by simp)) (List.forall_mem_append.2
        ⟨List.forall_mem_append.2 ⟨p.setsUp_visualProperties properties, hset⟩,
          setsUp_startAnimations hanimations⟩)
  | colorBrush color animators =>
      obtain ⟨animations, hanimations, h⟩ := bind_eq_ok.1 h
      cases h
      exact setsUp_result _ (.create (by simp [creators]) (List.forall_mem_singleton.2 (.lit _)))
        (setsUp_startAnimations hanimations)
  | effectBrush effect sources => exact setsUp_effectBrush _ h
  | surfaceBrush surface =>
      obtain ⟨e, he, h⟩ := bind_eq_ok.1 h
      cases h
      exact setsUp_result _ (.create (by simp [creators])
        (List.forall_mem_singleton.2 (operand_factoryCall he))) (by simp)
  | imageSurface assetId uri =>
      cases h
      exact setsUp_result _ (.load _ uri) (by simp)
  | scalarAnimation keyFrames =>
      obtain ⟨duration, hduration, h⟩ := bind_eq_ok.1 h
      cases h
      exact setsUp_result _ (.create (by simp [creators]) (by simp)) (List.forall_mem_cons.2
        ⟨setsUp_setDuration hduration,
          List.forall_mem_map.2 fun _ _ => p.setsUp_insertKeyFrame _ _ _⟩)
  | vector2Animation keyFrames =>
      obtain ⟨duration, hduration, h⟩ := bind_eq_ok.1 h
      cases h
      exact setsUp_result _ (.create (by simp [creators]) (by simp)) (List.forall_mem_cons.2
        ⟨setsUp_setDuration hduration,
          List.forall_mem_map.2 fun _ _ => p.setsUp_insertKeyFrame _ _ _⟩)
  | expressionAnimation expression references =>
      obtain ⟨sets, hsets, h⟩ := bind_eq_ok.1 h
      cases h
      exact setsUp_result _ (.create (by simp [creators]) (List.forall_mem_singleton.2 (.lit _)))
        (setsUp_setReferences hsets)

end Bodies

end Scenograph.Plan
