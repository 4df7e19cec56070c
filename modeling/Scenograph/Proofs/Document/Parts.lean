import Scenograph.Document.Graph
import Scenograph.Proofs.Json.Decode

namespace Scenograph

def AllFinite (xs : List Float) : Prop :=
  ∀ x ∈ xs, x.isFinite = true

@[simp] theorem allFinite_nil : AllFinite [] := by
  simp [AllFinite]

@[simp] theorem allFinite_cons {x : Float} {xs : List Float} :
    AllFinite (x :: xs) ↔ x.isFinite = true ∧ AllFinite xs := by
  simp [AllFinite]

@[simp] theorem allFinite_append {xs ys : List Float} :
    AllFinite (xs ++ ys) ↔ AllFinite xs ∧ AllFinite ys := by
  simp [AllFinite, or_imp, forall_and]

@[simp] theorem allFinite_flatMap {α : Type} {items : List α} {numbers : α → List Float} :
    AllFinite (items.flatMap numbers) ↔ ∀ a ∈ items, AllFinite (numbers a) := by
  simp only [AllFinite, List.mem_flatMap]
  exact ⟨fun h a ha x hx => h x ⟨a, ha, hx⟩, fun h x ⟨a, ha, hx⟩ => h a ha x hx⟩

@[simp] theorem allFinite_toList {o : Option Float} :
    AllFinite o.toList ↔ ∀ x ∈ o, x.isFinite = true := by
  simp [AllFinite]

open Decoder Fields

namespace Vector2

def numbers (v : Vector2 Float) : List Float :=
  [v.x, v.y]

theorem restores {v : Vector2 Float} (h : AllFinite v.numbers) (depth : Nat) :
    decoder.Restores (depth + 1) v.toJson v := by
  simp only [numbers, allFinite_cons] at h
  exact record_restores (((start_restores Vector2.mk depth).field (float_restores h.1)).field
    (float_restores h.2.1)) (by decide) rfl

theorem yields : decoder.Yields fun v => AllFinite v.numbers :=
  record_yields <| andThen_yields (required_yields float_yields) <|
    andThen_yields (required_yields float_yields) <| start_yields <| by simp +contextual [numbers]

end Vector2

namespace Vector3

def numbers (v : Vector3 Float) : List Float :=
  [v.x, v.y, v.z]

theorem restores {v : Vector3 Float} (h : AllFinite v.numbers) (depth : Nat) :
    decoder.Restores (depth + 1) v.toJson v := by
  simp only [numbers, allFinite_cons] at h
  exact record_restores ((((start_restores Vector3.mk depth).field (float_restores h.1)).field
    (float_restores h.2.1)).field (float_restores h.2.2.1)) (by decide) rfl

theorem yields : decoder.Yields fun v => AllFinite v.numbers :=
  record_yields <| andThen_yields (required_yields float_yields) <|
    andThen_yields (required_yields float_yields) <|
    andThen_yields (required_yields float_yields) <| start_yields <| by simp +contextual [numbers]

end Vector3

namespace Vector4

def numbers (v : Vector4 Float) : List Float :=
  [v.x, v.y, v.z, v.w]

theorem restores {v : Vector4 Float} (h : AllFinite v.numbers) (depth : Nat) :
    decoder.Restores (depth + 1) v.toJson v := by
  simp only [numbers, allFinite_cons] at h
  exact record_restores (((((start_restores Vector4.mk depth).field (float_restores h.1)).field
    (float_restores h.2.1)).field (float_restores h.2.2.1)).field (float_restores h.2.2.2.1))
    (by decide) rfl

theorem yields : decoder.Yields fun v => AllFinite v.numbers :=
  record_yields <| andThen_yields (required_yields float_yields) <|
    andThen_yields (required_yields float_yields) <|
    andThen_yields (required_yields float_yields) <|
    andThen_yields (required_yields float_yields) <| start_yields <| by simp +contextual [numbers]

end Vector4

namespace Color

def numbers (c : Color) : List Float :=
  [c.red, c.green, c.blue, c.alpha]

theorem restores {c : Color} (h : AllFinite c.numbers) (depth : Nat) :
    decoder.Restores (depth + 1) c.toJson c := by
  simp only [numbers, allFinite_cons] at h
  exact record_restores (((((start_restores Color.mk depth).field (float_restores h.1)).field
    (float_restores h.2.1)).field (float_restores h.2.2.1)).field (float_restores h.2.2.2.1))
    (by decide) rfl

theorem yields : decoder.Yields fun c => AllFinite c.numbers :=
  record_yields <| andThen_yields (required_yields float_yields) <|
    andThen_yields (required_yields float_yields) <|
    andThen_yields (required_yields float_yields) <|
    andThen_yields (required_yields float_yields) <| start_yields <| by simp +contextual [numbers]

end Color

namespace Easing

def numbers : Easing Float → List Float
  | .linear | .hold => []
  | .cubicBezier first second => first.numbers ++ second.numbers

theorem restores {e : Easing Float} (h : AllFinite e.numbers) (depth : Nat) :
    decoder.Restores (depth + 3) e.toJson e := by
  cases e with
  | linear => exact oneOf_restores_plain rfl
  | hold => exact oneOf_restores_plain rfl
  | cubicBezier first second =>
      simp only [numbers, allFinite_append] at h
      refine oneOf_restores_content (record_restores ?_ (by decide) rfl) rfl
      exact ((start_restores Easing.cubicBezier _).field (Vector2.restores h.1 depth)).field
        (Vector2.restores h.2 depth)

theorem yields : decoder.Yields fun e => AllFinite e.numbers := by
  refine oneOf_yields ?_
  simp only [List.forall_mem_cons, List.not_mem_nil, false_imp_iff, implies_true, and_true]
  refine ⟨by simp [Variant.Yields, numbers], by simp [Variant.Yields, numbers], ?_⟩
  exact record_yields <| andThen_yields (required_yields Vector2.yields) <|
    andThen_yields (required_yields Vector2.yields) <| start_yields <| by
      simp +contextual [numbers]

end Easing

namespace PropertyValue

def numbers : PropertyValue → List Float
  | .scalar x => [x]
  | .vector2 v => v.numbers
  | .vector3 v => v.numbers
  | .vector4 v => v.numbers
  | .color c => c.numbers
  | .boolean _ => []

theorem restores {p : PropertyValue} (h : AllFinite p.numbers) (depth : Nat) :
    decoder.Restores (depth + 2) p.toJson p := by
  cases p with
  | scalar x =>
      simp only [numbers, allFinite_cons] at h
      exact oneOf_restores_content ((float_restores h.1).map _) rfl
  | vector2 v => exact oneOf_restores_content ((Vector2.restores h depth).map _) rfl
  | vector3 v => exact oneOf_restores_content ((Vector3.restores h depth).map _) rfl
  | vector4 v => exact oneOf_restores_content ((Vector4.restores h depth).map _) rfl
  | color c => exact oneOf_restores_content ((Color.restores h depth).map _) rfl
  | boolean b => exact oneOf_restores_content ((bool_restores b).map _) rfl

theorem yields : decoder.Yields fun p => AllFinite p.numbers := by
  refine oneOf_yields ?_
  simp only [List.forall_mem_cons, List.not_mem_nil, false_imp_iff, implies_true, and_true]
  refine ⟨map_yields ?_, map_yields Vector2.yields, map_yields Vector3.yields,
    map_yields Vector4.yields, map_yields Color.yields, map_yields ?_⟩
  · simpa [numbers] using float_yields
  · simpa [numbers] using yields_any Decoder.bool

end PropertyValue

namespace ValueKind

theorem restores (kind : ValueKind) (depth : Nat) : decoder.Restores depth kind.toJson kind :=
  oneOf_restores_plain (by cases kind <;> rfl)

end ValueKind

namespace Binding

def numbers (b : Binding) : List Float :=
  b.default.numbers

theorem restores {b : Binding} (h : AllFinite b.numbers) (depth : Nat) :
    decoder.Restores (depth + 3) b.toJson b := by
  refine record_restores ?_ (by decide) rfl
  exact (((((start_restores Binding.mk _).field (string_restores _)).field
    (string_restores _)).field (ValueKind.restores _ _)).field (ValueKind.restores _ _)).field
    (PropertyValue.restores h depth)

theorem yields : decoder.Yields fun b => AllFinite b.numbers :=
  record_yields <| andThen_yields (required_yields PropertyValue.yields) <|
    andThen_yields (required_yields (yields_any _)) <|
    andThen_yields (required_yields (yields_any _)) <|
    andThen_yields (required_yields (yields_any _)) <|
    andThen_yields (required_yields (yields_any _)) <| start_yields <| by
      simp +contextual [numbers]

end Binding

namespace Effect

def numbers : Effect → List Float
  | .composite _ _ => []
  | .gaussianBlur amount _ => amount.toList

theorem source_restores (name : String) (depth : Nat) :
    sourceDecoder.Restores (depth + 1) (sourceToJson name) name :=
  record_restores ((start_restores id depth).field (string_restores name)) (by decide) rfl

theorem mode_restores (mode : CompositeMode) (depth : Nat) :
    CompositeMode.decoder.Restores depth mode.toJson mode :=
  oneOf_restores_plain (by cases mode <;> rfl)

theorem restores {e : Effect} (h : AllFinite e.numbers) (depth : Nat) :
    decoder.Restores (depth + 4) e.toJson e := by
  cases e with
  | composite mode sources =>
      refine oneOf_restores_content (record_restores ?_ (by decide) rfl) rfl
      exact ((start_restores Effect.composite _).field (mode_restores mode _)).field
        (list_restores fun name _ => source_restores name depth)
  | gaussianBlur amount source =>
      simp only [numbers, allFinite_toList] at h
      refine oneOf_restores_content (record_restores ?_ (by decide) rfl) rfl
      exact ((start_restores Effect.gaussianBlur _).field
        (nullable_restores (fun x hx => float_restores (h x hx)) nofun)).field
        (nullable_restores (fun name _ => source_restores name (depth + 1)) nofun)

theorem yields : decoder.Yields fun e => AllFinite e.numbers := by
  refine oneOf_yields ?_
  simp only [List.forall_mem_cons, List.not_mem_nil, false_imp_iff, implies_true, and_true]
  constructor
  · exact record_yields <| andThen_yields (defaulted_yields (yields_any _) trivial) <|
      andThen_yields (defaulted_yields (yields_any _) trivial) <| start_yields <| by simp [numbers]
  · exact record_yields <| andThen_yields (defaulted_yields (yields_any _) trivial) <|
      andThen_yields (defaulted_yields (nullable_yields float_yields) (by simp)) <|
      start_yields <| by simp [numbers]

end Effect

namespace VisualProperties

def numbers (p : VisualProperties Float) : List Float :=
  p.centerPoint.toList.flatMap Vector3.numbers ++ p.offset.toList.flatMap Vector3.numbers
    ++ p.size.toList.flatMap Vector2.numbers ++ p.opacity.toList ++ p.rotation.toList
    ++ p.scale.toList.flatMap Vector3.numbers

theorem restores {p : VisualProperties Float} (h : AllFinite p.numbers) (depth : Nat) :
    decoder.Restores (depth + 2) p.toJson p := by
  simp only [numbers, allFinite_append, allFinite_flatMap, Option.mem_toList, allFinite_toList]
    at h
  obtain ⟨⟨⟨⟨⟨hcenter, hoffset⟩, hsize⟩, hopacity⟩, hrotation⟩, hscale⟩ := h
  refine record_restores ?_ (by decide) rfl
  exact (((((((start_restores VisualProperties.mk _).field
    (nullable_restores (fun v hv => Vector3.restores (hcenter v hv) depth) nofun)).field
    (nullable_restores (fun v hv => Vector3.restores (hoffset v hv) depth) nofun)).field
    (nullable_restores (fun v hv => Vector2.restores (hsize v hv) depth) nofun)).field
    (nullable_restores (fun x hx => float_restores (hopacity x hx)) nofun)).field
    (nullable_restores (fun x hx => float_restores (hrotation x hx)) nofun)).field
    (nullable_restores (fun v hv => Vector3.restores (hscale v hv) depth) nofun)).field
    (nullable_restores (fun b _ => bool_restores b) nofun)

theorem yields : decoder.Yields fun p => AllFinite p.numbers :=
  record_yields <| andThen_yields (defaulted_yields (yields_any _) trivial) <|
    andThen_yields (defaulted_yields (nullable_yields Vector3.yields) (by simp)) <|
    andThen_yields (defaulted_yields (nullable_yields float_yields) (by simp)) <|
    andThen_yields (defaulted_yields (nullable_yields float_yields) (by simp)) <|
    andThen_yields (defaulted_yields (nullable_yields Vector2.yields) (by simp)) <|
    andThen_yields (defaulted_yields (nullable_yields Vector3.yields) (by simp)) <|
    andThen_yields (defaulted_yields (nullable_yields Vector3.yields) (by simp)) <|
    start_yields <| by simp +contextual [numbers]

end VisualProperties

namespace ProgressFrame

variable {ν : Type}

def numbers (value : ν → List Float) (k : ProgressFrame ν) : List Float :=
  k.progress :: (value k.value ++ k.easing.numbers)

theorem restores {numbers : ν → List Float} {value : ν → Json} {decode : Decoder ν} {depth : Nat}
    (hvalue : ∀ a, AllFinite (numbers a) → decode.Restores (depth + 3) (value a) a)
    {k : ProgressFrame ν} (h : AllFinite (k.numbers numbers)) :
    (decoder decode).Restores (depth + 4) (k.toJson value) k := by
  simp only [ProgressFrame.numbers, allFinite_cons, allFinite_append] at h
  have hkeys : ["progress", "value", "easing"].Nodup := by decide
  refine record_restores ?_ hkeys rfl
  exact (((start_restores ProgressFrame.mk _).field (float_restores h.1)).field
    (hvalue _ h.2.1)).field (Easing.restores h.2.2 depth)

theorem yields {numbers : ν → List Float} {decode : Decoder ν}
    (hvalue : decode.Yields fun a => AllFinite (numbers a)) :
    (decoder decode).Yields fun k => AllFinite (k.numbers numbers) :=
  record_yields <| andThen_yields (defaulted_yields Easing.yields (by simp [Easing.numbers])) <|
    andThen_yields (required_yields hvalue) <| andThen_yields (required_yields float_yields) <|
    start_yields <| by simp +contextual [ProgressFrame.numbers]

end ProgressFrame

def IsPosition (i : Nat) : Prop :=
  i < Nat.pow 2 64

theorem Decoder.position_restores {i depth : Nat} (h : IsPosition i) :
    position.Restores depth (.nat i) i :=
  natBelow_restores h le_rfl

theorem Decoder.position_yields : position.Yields IsPosition :=
  natBelow_yields _

namespace Animator

theorem restores {a : Animator} (h : IsPosition a.animation) (depth : Nat) :
    decoder.Restores (depth + 1) a.toJson a :=
  record_restores (((start_restores Animator.mk depth).field (string_restores _)).field
    (position_restores h)) (by decide) rfl

theorem yields : decoder.Yields fun a => IsPosition a.animation :=
  record_yields <| andThen_yields (required_yields position_yields) <|
    andThen_yields (required_yields (yields_any _)) <| start_yields <| by simp

end Animator

namespace NamedReference

theorem restores {r : NamedReference} (h : ∀ e ∈ r.edge?, IsPosition e.target) (depth : Nat) :
    decoder.Restores (depth + 2) r.toJson r := by
  obtain ⟨name, target⟩ := r
  refine record_restores (((start_restores NamedReference.mk _).field (string_restores _)).field ?_)
    (by decide) rfl
  cases target with
  | node id =>
      have hid : IsPosition id := by simpa [edge?] using h
      exact oneOf_restores_content ((position_restores hid).map _) rfl
  | theme => exact oneOf_restores_plain rfl

theorem yields : decoder.Yields fun r => ∀ e ∈ r.edge?, IsPosition e.target := by
  have htarget : Reference.decoder.Yields fun t => ∀ i, t = .node i → IsPosition i := by
    refine oneOf_yields ?_
    simp only [List.forall_mem_cons, List.not_mem_nil, false_imp_iff, implies_true, and_true]
    refine ⟨map_yields ?_, by simp [Variant.Yields]⟩
    simpa using position_yields
  refine record_yields <| andThen_yields (required_yields htarget) <|
    andThen_yields (required_yields (yields_any _)) <| start_yields ?_
  intro name _ target htarget e he
  cases target with
  | node id =>
      cases he
      exact htarget id rfl
  | theme => cases he

end NamedReference

namespace BoundSource

theorem restores {s : BoundSource} (h : IsPosition s.brush) (depth : Nat) :
    decoder.Restores (depth + 1) s.toJson s :=
  record_restores (((start_restores BoundSource.mk depth).field (string_restores _)).field
    (position_restores h)) (by decide) rfl

theorem yields : decoder.Yields fun s => IsPosition s.brush :=
  record_yields <| andThen_yields (required_yields position_yields) <|
    andThen_yields (required_yields (yields_any _)) <| start_yields <| by simp

end BoundSource

namespace CompositionObject

def numbers : CompositionObject → List Float
  | .containerVisual properties _ _ | .spriteVisual properties _ _ => properties.numbers
  | .colorBrush color _ => color.numbers
  | .effectBrush effect _ => effect.numbers
  | .scalarAnimation keyFrames => keyFrames.flatMap (ProgressFrame.numbers fun x => [x])
  | .vector2Animation keyFrames => keyFrames.flatMap (ProgressFrame.numbers Vector2.numbers)
  | .surfaceBrush _ | .imageSurface _ _ | .expressionAnimation _ _ => []

structure Storable (o : CompositionObject) : Prop where
  numbers : AllFinite o.numbers
  targets : ∀ e ∈ o.edges, IsPosition e.target

theorem animators_restores {animators : List Animator}
    (h : ∀ a ∈ animators, IsPosition a.animation) (depth : Nat) :
    (list Animator.decoder).Restores (depth + 2) (.list Animator.toJson animators) animators :=
  list_restores fun a ha => Animator.restores (h a ha) depth

theorem Storable.animators {o : CompositionObject} (h : o.Storable) :
    ∀ a ∈ o.animators, IsPosition a.animation :=
  fun a ha => h.targets ⟨a.property, a.animation⟩
    (List.mem_append_right _ (List.mem_map.2 ⟨a, ha, rfl⟩))

theorem Storable.own {o : CompositionObject} (h : o.Storable) :
    ∀ e ∈ o.ownEdges, IsPosition e.target :=
  fun e he => h.targets e (List.mem_append_left _ he)

theorem storable_of {o : CompositionObject} (hnumbers : AllFinite o.numbers)
    (hown : ∀ e ∈ o.ownEdges, IsPosition e.target)
    (hanimators : ∀ a ∈ o.animators, IsPosition a.animation) : o.Storable := by
  refine ⟨hnumbers, fun e he => ?_⟩
  rcases List.mem_append.1 he with he | he
  · exact hown e he
  · obtain ⟨a, ha, rfl⟩ := List.mem_map.1 he
    exact hanimators a ha

theorem restores {o : CompositionObject} (h : o.Storable) (depth : Nat) :
    decoder.Restores (depth + 7) o.toJson o := by
  have hnumbers := h.numbers
  have hanimators := h.animators
  have hown := h.own
  cases o with
  | containerVisual properties children animators =>
      simp only [ownEdges, List.forall_mem_map] at hown
      refine oneOf_restores_content (record_restores ?_ (by decide) rfl) rfl
      exact (((start_restores containerVisual _).field
        (VisualProperties.restores hnumbers _)).field
        (list_restores fun i hi => position_restores (hown i hi))).field
        (animators_restores hanimators _)
  | spriteVisual properties brush animators =>
      simp only [ownEdges, List.forall_mem_map, Option.mem_toList] at hown
      refine oneOf_restores_content (record_restores ?_ (by decide) rfl) rfl
      exact (((start_restores spriteVisual _).field (VisualProperties.restores hnumbers _)).field
        (nullable_restores (fun i hi => position_restores (hown i hi)) nofun)).field
        (animators_restores hanimators _)
  | colorBrush color animators =>
      refine oneOf_restores_content (record_restores ?_ (by decide) rfl) rfl
      exact ((start_restores colorBrush _).field (Color.restores hnumbers _)).field
        (animators_restores hanimators _)
  | effectBrush effect sources =>
      simp only [ownEdges, List.forall_mem_map] at hown
      refine oneOf_restores_content (record_restores ?_ (by decide) rfl) rfl
      exact ((start_restores effectBrush _).field (Effect.restores hnumbers _)).field
        (list_restores fun s hs => BoundSource.restores (hown s hs) _)
  | surfaceBrush surface =>
      simp only [ownEdges, List.forall_mem_singleton] at hown
      refine oneOf_restores_content (record_restores ?_ (by decide) rfl) rfl
      exact (start_restores surfaceBrush _).field (position_restores hown)
  | imageSurface assetId uri =>
      refine oneOf_restores_content (record_restores ?_ (by decide) rfl) rfl
      exact ((start_restores imageSurface _).field (string_restores _)).field (string_restores _)
  | scalarAnimation keyFrames =>
      simp only [numbers, allFinite_flatMap] at hnumbers
      refine oneOf_restores_content (record_restores ?_ (by decide) rfl) rfl
      refine (start_restores scalarAnimation _).field (list_restores fun k hk => ?_)
      exact ProgressFrame.restores (fun x hx => float_restores (by simpa using hx)) (hnumbers k hk)
  | vector2Animation keyFrames =>
      simp only [numbers, allFinite_flatMap] at hnumbers
      refine oneOf_restores_content (record_restores ?_ (by decide) rfl) rfl
      refine (start_restores vector2Animation _).field (list_restores fun k hk => ?_)
      exact ProgressFrame.restores (fun v hv => Vector2.restores hv _) (hnumbers k hk)
  | expressionAnimation expression references =>
      simp only [ownEdges, List.mem_filterMap, forall_exists_index, and_imp] at hown
      refine oneOf_restores_content (record_restores ?_ (by decide) rfl) rfl
      refine ((start_restores expressionAnimation _).field (string_restores _)).field
        (list_restores fun r hr => NamedReference.restores ?_ _)
      exact fun e he => hown e r hr he

theorem yields : decoder.Yields Storable := by
  have hanimators : animatorsField.Yields fun as => ∀ a ∈ as, IsPosition a.animation :=
    defaulted_yields (list_yields Animator.yields) (by simp)
  have hproperties : propertiesField.Yields fun p => AllFinite p.numbers :=
    defaulted_yields VisualProperties.yields (by simp [VisualProperties.numbers])
  have hscalar : Decoder.float.Yields fun x => AllFinite [x] := by simpa using float_yields
  refine oneOf_yields ?_
  simp only [List.forall_mem_cons, List.not_mem_nil, false_imp_iff, implies_true, and_true]
  refine ⟨?_, ?_, ?_, ?_, ?_, ?_, ?_, ?_, ?_⟩
  · refine record_yields <| andThen_yields hanimators <|
      andThen_yields (defaulted_yields (list_yields position_yields) (by simp)) <|
      andThen_yields hproperties <| start_yields ?_
    intro properties hnumbers children hchildren animators hanimators
    exact storable_of hnumbers (by simpa [ownEdges] using hchildren) hanimators
  · refine record_yields <| andThen_yields hanimators <|
      andThen_yields (defaulted_yields (nullable_yields position_yields) (by simp)) <|
      andThen_yields hproperties <| start_yields ?_
    intro properties hnumbers brush hbrush animators hanimators
    exact storable_of hnumbers (by simpa [ownEdges] using hbrush) hanimators
  · refine record_yields <| andThen_yields hanimators <|
      andThen_yields (required_yields Color.yields) <| start_yields ?_
    intro color hnumbers animators hanimators
    exact storable_of hnumbers (by simp [ownEdges]) hanimators
  · refine record_yields <|
      andThen_yields (defaulted_yields (list_yields BoundSource.yields) (by simp)) <|
      andThen_yields (required_yields Effect.yields) <| start_yields ?_
    intro effect hnumbers sources hsources
    exact storable_of hnumbers (by simpa [ownEdges] using hsources) (by simp [animators])
  · refine record_yields <| andThen_yields (required_yields position_yields) <| start_yields ?_
    intro surface hsurface
    exact storable_of (by simp [numbers]) (by simpa [ownEdges] using hsurface) (by simp [animators])
  · refine record_yields <| andThen_yields (required_yields (yields_any _)) <|
      andThen_yields (required_yields (yields_any _)) <| start_yields ?_
    intro assetId _ uri _
    exact storable_of (by simp [numbers]) (by simp [ownEdges]) (by simp [animators])
  · refine record_yields <|
      andThen_yields (required_yields (list_yields (ProgressFrame.yields hscalar))) <|
      start_yields ?_
    intro keyFrames hkeyFrames
    exact storable_of (by simpa [numbers] using hkeyFrames) (by simp [ownEdges])
      (by simp [animators])
  · refine record_yields <|
      andThen_yields (required_yields (list_yields (ProgressFrame.yields Vector2.yields))) <|
      start_yields ?_
    intro keyFrames hkeyFrames
    exact storable_of (by simpa [numbers] using hkeyFrames) (by simp [ownEdges])
      (by simp [animators])
  · refine record_yields <|
      andThen_yields (defaulted_yields (list_yields NamedReference.yields) (by simp)) <|
      andThen_yields (required_yields (yields_any _)) <| start_yields ?_
    intro expression _ references hreferences
    refine storable_of (by simp [numbers]) ?_ (by simp [animators])
    intro e he
    obtain ⟨r, hr, he⟩ := List.mem_filterMap.1 he
    exact hreferences r hr e he

end CompositionObject

end Scenograph
