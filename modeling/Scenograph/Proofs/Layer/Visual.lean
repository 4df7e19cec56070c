import Scenograph.Composition.Object
import Scenograph.Layer.Basic
import Scenograph.Proofs.Number.Scalar
import Scenograph.Proofs.Rendering.Shift

namespace Scenograph

namespace Animatable

variable {α ν : Type}

def StartsAtFirst [BEq ν] (a : Animatable α ν) : Prop :=
  ∀ k ∈ a.keyFrames.head?, SameNumber a.initial k.value

theorem startsAtFirst_constant [BEq ν] (value : ν) :
    (constant value : Animatable α ν).StartsAtFirst := by
  intro k hk
  cases hk

theorem startsAtFirst_keyframed [Bits α] [BEq ν] {frames : List (KeyFrame α ν)}
    {a : Animatable α ν} (h : keyframed frames = some a) : a.StartsAtFirst := by
  unfold keyframed at h
  split at h
  · cases h
  · cases h
    rintro k ⟨⟩
    exact .refl _

theorem initial_of_isAlways [Scalar α] [LawfulScalar α] {a : Animatable α α} {value : α}
    (hfirst : a.StartsAtFirst) (h : a.isAlways value = true) : (a.initial == value) = true := by
  unfold isAlways at h
  cases hmoves : a.isAnimated with
  | false => simpa [hmoves] using h
  | true =>
      have hall : ∀ k ∈ a.keyFrames, (k.value == value) = true := by simpa [hmoves] using h
      cases hframes : a.keyFrames with
      | nil => simp [isAnimated, hframes] at hmoves
      | cons k rest =>
          have hk : SameNumber a.initial k.value := hfirst k (by simp [hframes])
          exact hk.beq (hall k (by simp [hframes]))

end Animatable

namespace InitialValues

variable {α : Type}

def takeIf (keep : Bool) (values : InitialValues α) : Context α → InitialValues α
  | .anchor a => { values with anchor := if keep then some a.initial else values.anchor }
  | .position a => { values with position := if keep then some a.initial else values.position }
  | .scale a => { values with scale := if keep then some a.initial else values.scale }
  | .rotation a => { values with rotation := if keep then some a.initial else values.rotation }
  | .opacity a => { values with opacity := if keep then some a.initial else values.opacity }
  | .blendMode _ | .composite _ => values

theorem foldl_take_filter (keep : Context α → Bool) (values : InitialValues α)
    (items : List (Context α)) :
    (items.filter keep).foldl take values
      = items.foldl (fun values c => values.takeIf (keep c) c) values := by
  have htake : (fun (values : InitialValues α) (c : Context α) =>
      if keep c then values.take c else values) = fun values c => values.takeIf (keep c) c := by
    funext values c
    cases keep c <;> cases c <;> rfl
  rw [List.foldl_filter, htake]

theorem foldl_take_others (values : InitialValues α) (items : List (Context α)) :
    (Context.others items).foldl take values = items.foldl take values := by
  have htake : (fun (values : InitialValues α) (c : Context α) =>
      values.takeIf c.blendMode?.isNone c) = take := by
    funext values c
    cases c <;> rfl
  rw [Context.others, foldl_take_filter, htake]

theorem foldl_take_modes (values : InitialValues α) (modes : List BlendMode) :
    (modes.map Context.blendMode).foldl take values = values := by
  induction modes with
  | nil => rfl
  | cons mode modes ih => exact ih

variable [Scalar α]

theorem take_shift (frames : α) (values : InitialValues α) (c : Context α) :
    values.take (c.shift frames) = values.take c := by
  cases c <;> simp [Context.shift, take]

theorem ofContext_shift (frames : α) (c : Context α) :
    ofContext (c.shift frames) = ofContext c := by
  rw [ofContext, Context.items_shift, List.foldl_map]
  simp only [take_shift]
  rfl

theorem ofContext_simplify (items : List (Context α)) :
    ofContext (Context.composite items).simplify
      = (items.filter Context.isNeeded).foldl take {} := by
  rw [Context.simplify_composite, ofContext, Context.items, List.foldl_append,
    foldl_take_others, foldl_take_modes]

end InitialValues

namespace Layer

variable {α : Type}

def ownItems (layer : Layer α) : List (Context α) :=
  let t := layer.placement.transform
  let moves : List (Context α) :=
    [.anchor t.anchor, .position t.position, .scale t.scale, .rotation t.rotation]
  let looks : List (Context α) :=
    if layer.isTransformOnly then [] else [.opacity t.opacity, .blendMode layer.placement.blendMode]
  moves ++ looks

def startValues (layer : Layer α) (keep : Context α → Bool) : InitialValues α :=
  let t := layer.placement.transform
  { anchor := if keep (.anchor t.anchor) then some t.anchor.initial else none
    position := if keep (.position t.position) then some t.position.initial else none
    scale := if keep (.scale t.scale) then some t.scale.initial else none
    rotation := if keep (.rotation t.rotation) then some t.rotation.initial else none
    opacity :=
      if !layer.isTransformOnly && keep (.opacity t.opacity) then some t.opacity.initial else none }

theorem foldl_take_ownItems (layer : Layer α) (keep : Context α → Bool) :
    (layer.ownItems.filter keep).foldl InitialValues.take {} = layer.startValues keep := by
  rw [InitialValues.foldl_take_filter]
  unfold ownItems startValues
  cases layer.isTransformOnly <;> rfl

variable [Scalar α]

theorem renderingContext_eq (layer : Layer α) :
    layer.renderingContext =
      if layer.placement.startFrame == Scalar.ofNat 0 then .composite layer.ownItems
      else (Context.composite layer.ownItems).shift layer.placement.startFrame :=
  rfl

theorem ofContext_renderingContext (layer : Layer α) :
    InitialValues.ofContext layer.renderingContext = layer.startValues fun _ => true := by
  rw [← foldl_take_ownItems, List.filter_true, renderingContext_eq]
  split
  · rfl
  · exact InitialValues.ofContext_shift _ _

theorem ofContext_simplified (layer : Layer α) :
    InitialValues.ofContext layer.renderingContext.simplify
      = layer.startValues Context.isNeeded := by
  rw [← foldl_take_ownItems, renderingContext_eq]
  split
  · exact InitialValues.ofContext_simplify _
  · rw [Context.simplify_shift, InitialValues.ofContext_shift]
    exact InitialValues.ofContext_simplify _

end Layer

inductive Omits {ν : Type} (isDefault : ν → Bool) : Option ν → Option ν → Prop
  | keep (value : Option ν) : Omits isDefault value value
  | leave {value : ν} (h : isDefault value = true) : Omits isDefault (some value) none

inductive Kept {ν : Type} (same : ν → ν → Prop) (default : ν) : Option ν → Option ν → Prop
  | same {u o : ν} (h : same u o) : Kept same default (some u) (some o)
  | unset : Kept same default none none
  | default {u : ν} (h : same u default) : Kept same default (some u) none

theorem Omits.of_needed {ν : Type} {isDefault : ν → Bool} {needed : Bool} {value : ν}
    (h : needed = false → isDefault value = true) :
    Omits isDefault (some value) (if needed then some value else none) := by
  cases needed with
  | true => exact .keep (some value)
  | false => exact .leave (h rfl)

theorem Omits.kept {ν μ : Type} {isDefault : ν → Bool} {same : μ → μ → Prop} {default : μ}
    {f : ν → μ} (hrefl : ∀ m, same m m) (hdefault : ∀ v, isDefault v = true → same (f v) default)
    {u o : Option ν} (h : Omits isDefault u o) : Kept same default (u.map f) (o.map f) := by
  cases h with
  | keep =>
      cases u with
      | none => exact .unset
      | some value => exact .same (hrefl _)
  | leave h => exact .default (hdefault _ h)

section Properties

variable {α : Type} [Scalar α]

structure InitialValues.LeavesOut (u o : InitialValues α) : Prop where
  anchor : Omits (· == Vector2.zero) u.anchor o.anchor
  position : Omits (· == Vector2.zero) u.position o.position
  scale : Omits (· == Vector2.splat (Scalar.ofNat 100)) u.scale o.scale
  rotation : Omits (· == Scalar.ofNat 0) u.rotation o.rotation
  opacity : Omits (· == Scalar.ofNat 1) u.opacity o.opacity

structure VisualProperties.Keeps (u o : VisualProperties α) : Prop where
  centerPoint : Kept Vector3.Same Vector3.zero u.centerPoint o.centerPoint
  offset : Kept Vector3.Same Vector3.zero u.offset o.offset
  scale : Kept Vector3.Same ⟨Scalar.ofNat 1, Scalar.ofNat 1, Scalar.ofNat 1⟩ u.scale o.scale
  rotation : Kept SameNumber (Scalar.ofNat 0) u.rotation o.rotation
  opacity : Kept SameNumber (Scalar.ofNat 1) u.opacity o.opacity
  size : u.size = o.size
  isVisible : u.isVisible = o.isVisible

def offsetBetween (position anchor : Vector2 α) : Vector3 α :=
  ⟨position.x - anchor.x, position.y - anchor.y, Scalar.ofNat 0⟩

theorem Omits.getD_same {u o : Option (Vector2 α)} (h : Omits (· == Vector2.zero) u o) :
    (u.getD Vector2.zero).Same (o.getD Vector2.zero) := by
  cases h with
  | keep => exact .refl _
  | leave h => exact Vector2.same_of_beq h

variable [LawfulScalar α]

theorem offsetBetween_same {p q a b : Vector2 α} (hp : p.Same q) (ha : a.Same b) :
    (offsetBetween p a).Same (offsetBetween q b) :=
  ⟨LawfulScalar.sub_same hp.x ha.x, LawfulScalar.sub_same hp.y ha.y, .refl _⟩

theorem offsetBetween_zero : (offsetBetween Vector2.zero Vector2.zero : Vector3 α).Same .zero :=
  ⟨.inr LawfulScalar.zero_sub_zero, .inr LawfulScalar.zero_sub_zero, .refl _⟩

/-- Anchor and position may be left out one without the other. The offset is computed from what
stands for them then, and is unset only when both are. -/
theorem offset_kept {p q a b : Option (Vector2 α)} (hp : Omits (· == Vector2.zero) p q)
    (ha : Omits (· == Vector2.zero) a b) :
    Kept Vector3.Same Vector3.zero
      (if p.isSome || a.isSome then
        some (offsetBetween (p.getD Vector2.zero) (a.getD Vector2.zero)) else none)
      (if q.isSome || b.isSome then
        some (offsetBetween (q.getD Vector2.zero) (b.getD Vector2.zero)) else none) := by
  have hvalue := offsetBetween_same hp.getD_same ha.getD_same
  cases hset : q.isSome || b.isSome with
  | true =>
      have hfull : (p.isSome || a.isSome) = true := by
        cases hp <;> cases ha <;> simp_all
      rw [if_pos hfull, if_pos rfl]
      exact .same hvalue
  | false =>
      obtain ⟨rfl, rfl⟩ : q = none ∧ b = none := by simpa using hset
      rw [if_neg Bool.false_ne_true]
      split
      · exact .default (hvalue.trans offsetBetween_zero)
      · exact .unset

theorem scale_same {s : Vector2 α} (h : (s == Vector2.splat (Scalar.ofNat 100)) = true) :
    Vector3.Same ⟨s.x / Scalar.ofNat 100, s.y / Scalar.ofNat 100, Scalar.ofNat 1⟩
      ⟨Scalar.ofNat 1, Scalar.ofNat 1, Scalar.ofNat 1⟩ := by
  have hs := Vector2.same_of_beq h
  have hdiv : SameNumber (Scalar.ofNat 100 / Scalar.ofNat 100 : α) (Scalar.ofNat 1) :=
    .inr LawfulScalar.hundred_div_hundred
  exact ⟨(LawfulScalar.div_same hs.x _).trans hdiv, (LawfulScalar.div_same hs.y _).trans hdiv,
    .refl _⟩

theorem InitialValues.LeavesOut.keeps {c d : Context α}
    (h : (InitialValues.ofContext c).LeavesOut (InitialValues.ofContext d)) :
    (VisualProperties.ofContext c).Keeps (VisualProperties.ofContext d) := by
  constructor
  case centerPoint =>
    refine h.anchor.kept Vector3.Same.refl fun v hv => ?_
    have hzero := Vector2.same_of_beq hv
    exact ⟨hzero.x, hzero.y, .refl _⟩
  case offset => exact offset_kept h.position h.anchor
  case scale => exact h.scale.kept Vector3.Same.refl fun v hv => scale_same hv
  case rotation =>
    have hkept := h.rotation.kept (f := id) SameNumber.refl fun v hv => .inr hv
    rwa [Option.map_id] at hkept
  case opacity =>
    have hkept := h.opacity.kept (f := id) SameNumber.refl fun v hv => .inr hv
    rwa [Option.map_id] at hkept
  case size => rfl
  case isVisible => rfl

theorem default_of_not_needed {moves isDefault : Bool} (h : (moves || !isDefault) = false) :
    isDefault = true := by
  simpa using (Bool.or_eq_false_iff.1 h).2

theorem Layer.leavesOut {layer : Layer α}
    (hrotation : layer.placement.transform.rotation.StartsAtFirst)
    (hopacity : layer.placement.transform.opacity.StartsAtFirst) :
    (InitialValues.ofContext layer.renderingContext).LeavesOut
      (InitialValues.ofContext layer.renderingContext.simplify) := by
  rw [layer.ofContext_renderingContext, layer.ofContext_simplified]
  constructor
  case anchor => exact Omits.of_needed fun h => default_of_not_needed h
  case position => exact Omits.of_needed fun h => default_of_not_needed h
  case scale => exact Omits.of_needed fun h => default_of_not_needed h
  case rotation =>
    refine Omits.of_needed fun h => ?_
    simp only [Context.isNeeded, Bool.not_eq_false'] at h
    exact Animatable.initial_of_isAlways hrotation h
  case opacity =>
    unfold Layer.startValues
    cases layer.isTransformOnly with
    | true => exact .keep none
    | false =>
        refine Omits.of_needed fun h => ?_
        simp only [Context.isNeeded, Bool.not_false, Bool.true_and, Bool.not_eq_false'] at h
        exact Animatable.initial_of_isAlways hopacity h

end Properties

theorem simplify_keeps_visual {α : Type} [Scalar α] [LawfulScalar α] (layer : Layer α)
    (hrotation : layer.placement.transform.rotation.StartsAtFirst)
    (hopacity : layer.placement.transform.opacity.StartsAtFirst) :
    (VisualProperties.ofContext layer.renderingContext).Keeps
      (VisualProperties.ofContext layer.renderingContext.simplify) := by
  have hvalues := Layer.leavesOut hrotation hopacity
  exact hvalues.keeps

def turningLayer {α : Type} [Scalar α] (turn : Animatable α α) : Layer α where
  placement :=
    { Placement.of 1 "turning" (Scalar.ofNat 0) (Scalar.ofNat 60) with
      startFrame := Scalar.ofNat 5
      transform :=
        { Transform.identity with
          position := .constant ⟨Scalar.ofNat 10, Scalar.ofNat 20⟩
          rotation := turn } }
  content := .shape

def restingTurn {α : Type} [Scalar α] : Animatable α α :=
  ⟨Scalar.ofNat 0, [⟨Scalar.ofNat 0, Scalar.ofNat 0, .linear⟩,
    ⟨Scalar.ofNat 30, Scalar.ofNat 0, .hold⟩]⟩

theorem keyframed_restingTurn :
    Animatable.keyframed (restingTurn : Animatable Float Float).keyFrames = some restingTurn := by
  have hsorted : (restingTurn : Animatable Float Float).keyFrames.Pairwise
      fun a b => totalLe a.frame b.frame = true := by
    decide +kernel
  rw [Animatable.keyframed, List.mergeSort_of_pairwise hsorted]
  rfl

theorem simplify_keeps_visual_turningLayer :
    let context := (turningLayer (restingTurn : Animatable Float Float)).renderingContext
    (VisualProperties.ofContext context).rotation = some (Scalar.ofNat 0)
      ∧ (VisualProperties.ofContext context.simplify).rotation = none
      ∧ (VisualProperties.ofContext context).Keeps (VisualProperties.ofContext context.simplify)
      ∧ let _ : Scalar ℚ := exactScalar ℚ
        let rational := (turningLayer (restingTurn : Animatable ℚ ℚ)).renderingContext
        (VisualProperties.ofContext rational).Keeps
          (VisualProperties.ofContext rational.simplify) := by
  intro context
  have hneeded : (Context.rotation (restingTurn : Animatable Float Float)).isNeeded = false := by
    decide +kernel
  refine ⟨?_, ?_, ?_, ?_⟩
  · change (InitialValues.ofContext context).rotation = _
    rw [Layer.ofContext_renderingContext]
    rfl
  · change (InitialValues.ofContext context.simplify).rotation = _
    rw [Layer.ofContext_simplified]
    simp [Layer.startValues, turningLayer, hneeded]
  · exact simplify_keeps_visual _ (Animatable.startsAtFirst_keyframed keyframed_restingTurn)
      (Animatable.startsAtFirst_constant _)
  · intro scalar rational
    have hlawful : LawfulScalar ℚ := exactScalar_lawful ℚ
    refine simplify_keeps_visual _ ?_ (Animatable.startsAtFirst_constant _)
    rintro k ⟨⟩
    exact .refl _

end Scenograph
