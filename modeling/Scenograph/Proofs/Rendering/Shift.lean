import Mathlib.Data.List.Basic
import Scenograph.Proofs.Rendering.NormalForm

namespace Scenograph

namespace Animatable

variable {α ν : Type}

def times (a : Animatable α ν) : List α :=
  if a.isAnimated then a.keyFrames.map (·.frame) else []

theorem isAlways_eq_values [BEq ν] (a : Animatable α ν) (value : ν) :
    a.isAlways value =
      if a.isAnimated then (a.keyFrames.map (·.value)).all (· == value)
      else a.initial == value := by
  rw [List.all_map]
  rfl

variable [Scalar α] (a : Animatable α ν) (frames : α)

@[simp] theorem initial_shift : (a.shift frames).initial = a.initial := by
  unfold shift
  split <;> rfl

@[simp] theorem values_shift :
    (a.shift frames).keyFrames.map (·.value) = a.keyFrames.map (·.value) := by
  unfold shift
  split
  · rfl
  · rw [List.map_map]
    rfl

@[simp] theorem isAnimated_shift : (a.shift frames).isAnimated = a.isAnimated := by
  have hlength := congrArg List.length (values_shift a frames)
  simp only [List.length_map] at hlength
  simp only [isAnimated, hlength]

@[simp] theorem isAlways_shift [BEq ν] (value : ν) :
    (a.shift frames).isAlways value = a.isAlways value := by
  simp only [isAlways_eq_values, isAnimated_shift, values_shift, initial_shift]

theorem times_shift :
    (a.shift frames).times =
      if frames == Scalar.ofNat 0 then a.times else a.times.map (· + frames) := by
  unfold times
  rw [isAnimated_shift]
  cases hmoves : a.isAnimated with
  | false => simp
  | true =>
      cases hzero : frames == Scalar.ofNat 0 with
      | true => simp [shift, hzero]
      | false => simp [shift, hmoves, hzero]

end Animatable

namespace Context

variable {α : Type}

theorem inductionOn {motive : Context α → Prop} (c : Context α)
    (leaf : ∀ c, c.isComposite = false → motive c)
    (composite : ∀ items, (∀ c ∈ items, motive c) → motive (.composite items)) : motive c := by
  cases c with
  | composite items => exact composite items fun c _ => inductionOn c leaf composite
  | _ => exact leaf _ rfl
termination_by sizeOf c
decreasing_by
  have := List.sizeOf_lt_of_mem ‹_ ∈ items›
  simp only [Context.composite.sizeOf_spec]
  omega

theorem isAnimated_composite (items : List (Context α)) :
    (composite items).isAnimated = (items.map isAnimated).any id := by
  rw [isAnimated]
  induction items with
  | nil => rfl
  | cons c rest ih => rw [anyAnimated, ih, List.map_cons, List.any_cons, id]

mutual

def times : Context α → List α
  | .anchor a | .position a | .scale a => a.times
  | .opacity a | .rotation a => a.times
  | .blendMode _ => []
  | .composite items => allTimes items

def allTimes : List (Context α) → List α
  | [] => []
  | c :: rest => times c ++ allTimes rest

end

theorem times_composite (items : List (Context α)) :
    (composite items).times = (items.map times).flatten := by
  rw [times]
  induction items with
  | nil => rfl
  | cons c rest ih => rw [allTimes, ih, List.map_cons, List.flatten_cons]

variable [Scalar α]

theorem isDefault_composite (items : List (Context α)) :
    (composite items).isDefault = (items.map isDefault).all id := by
  rw [isDefault]
  induction items with
  | nil => rfl
  | cons c rest ih => rw [allDefault, ih, List.map_cons, List.all_cons, id]

variable (frames : α)

theorem shiftAll_eq_map (items : List (Context α)) :
    shiftAll frames items = items.map (shift frames) := by
  induction items with
  | nil => rfl
  | cons c rest ih => rw [shiftAll, ih, List.map_cons]

theorem shift_composite (items : List (Context α)) :
    (composite items).shift frames = .composite (items.map (shift frames)) := by
  rw [shift, shiftAll_eq_map]

@[simp] theorem kind_shift (c : Context α) : (c.shift frames).kind = c.kind := by
  cases c <;> rfl

@[simp] theorem isComposite_shift (c : Context α) :
    (c.shift frames).isComposite = c.isComposite := by
  cases c <;> rfl

@[simp] theorem blendMode?_shift (c : Context α) :
    (c.shift frames).blendMode? = c.blendMode? := by
  cases c <;> rfl

@[simp] theorem isMovingVector_shift (c : Context α) :
    (c.shift frames).isMovingVector = c.isMovingVector := by
  cases c <;> simp [shift, isMovingVector]

@[simp] theorem isAnimated_shift (c : Context α) :
    (c.shift frames).isAnimated = c.isAnimated := by
  induction c using inductionOn with
  | leaf c hleaf => cases c <;> simp_all [shift, isAnimated, isComposite]
  | composite items ih =>
      have hitems : items.map (isAnimated ∘ shift frames) = items.map isAnimated :=
        List.map_congr_left ih
      rw [shift_composite, isAnimated_composite, isAnimated_composite, List.map_map, hitems]

@[simp] theorem isDefault_shift (c : Context α) :
    (c.shift frames).isDefault = c.isDefault := by
  induction c using inductionOn with
  | leaf c hleaf => cases c <;> simp_all [shift, isDefault, isComposite]
  | composite items ih =>
      have hitems : items.map (isDefault ∘ shift frames) = items.map isDefault :=
        List.map_congr_left ih
      rw [shift_composite, isDefault_composite, isDefault_composite, List.map_map, hitems]

theorem times_shift (c : Context α) :
    (c.shift frames).times =
      if frames == Scalar.ofNat 0 then c.times else c.times.map (· + frames) := by
  induction c using inductionOn with
  | leaf c hleaf => cases c <;> simp_all [shift, times, isComposite, Animatable.times_shift]
  | composite items ih =>
      rw [shift_composite, times_composite, times_composite, List.map_map]
      cases hzero : frames == Scalar.ofNat 0 with
      | true =>
          have hitems : items.map (times ∘ shift frames) = items.map times :=
            List.map_congr_left fun c hc => (ih c hc).trans (if_pos hzero)
          rw [hitems]
          rfl
      | false =>
          have hitems : items.map (times ∘ shift frames)
              = items.map (List.map (· + frames) ∘ times) :=
            List.map_congr_left fun c hc => (ih c hc).trans (if_neg (by simp [hzero]))
          rw [hitems, ← List.map_map, ← List.map_flatten]
          rfl

@[simp] theorem isNeeded_shift (c : Context α) : (c.shift frames).isNeeded = c.isNeeded := by
  simp only [isNeeded_eq, isComposite_shift, blendMode?_shift, isDefault_shift,
    isMovingVector_shift]

theorem items_shift (c : Context α) : (c.shift frames).items = c.items.map (shift frames) := by
  cases c with
  | composite items => exact shiftAll_eq_map frames items
  | _ => rfl

theorem ofItems_shift (items : List (Context α)) :
    ofItems (items.map (shift frames)) = (ofItems items).shift frames := by
  rcases items with _ | ⟨c, _ | ⟨d, rest⟩⟩
  · rfl
  · rfl
  · exact (shift_composite frames (c :: d :: rest)).symm

theorem compose_shift (contexts : List (Context α)) :
    compose (contexts.map (shift frames)) = (compose contexts).shift frames := by
  have hitems : (contexts.map (shift frames)).flatMap items
      = (contexts.flatMap items).map (shift frames) := by
    rw [List.flatMap_map, List.map_flatMap]
    exact List.flatMap_congr fun c _ => items_shift frames c
  rw [compose, compose, hitems, ofItems_shift]

theorem finalMode_shift (items : List (Context α)) :
    finalMode (items.map (shift frames)) = finalMode items := by
  have hmodes : (items.map (shift frames)).filterMap blendMode? = items.filterMap blendMode? := by
    rw [List.filterMap_map]
    exact List.filterMap_congr fun c _ => blendMode?_shift frames c
  rw [finalMode, finalMode, lastBlendMode, lastBlendMode, hmodes]

theorem others_shift (items : List (Context α)) :
    others ((items.map (shift frames)).filter isNeeded)
      = (others (items.filter isNeeded)).map (shift frames) := by
  simp only [others, List.filter_map, Function.comp_def, isNeeded_shift, blendMode?_shift]

theorem simplify_shift (c : Context α) :
    (c.shift frames).simplify = c.simplify.shift frames := by
  cases c with
  | composite items =>
      have hmode : ((finalMode items).toList.map blendMode : List (Context α)).map (shift frames)
          = (finalMode items).toList.map blendMode := by
        rw [List.map_map]
        rfl
      rw [shift_composite, simplify_composite, simplify_composite, shift_composite,
        List.map_append, others_shift, finalMode_shift, hmode]
  | _ => rfl

end Context

theorem shift_commutes {α : Type} [Scalar α] (frames : α) (c : Context α)
    (contexts : List (Context α)) :
    (c.shift frames).simplify = c.simplify.shift frames
      ∧ Context.compose (contexts.map (Context.shift frames))
          = (Context.compose contexts).shift frames
      ∧ (c.shift frames).isAnimated = c.isAnimated
      ∧ (c.shift frames).isDefault = c.isDefault
      ∧ (c.shift frames).items.map Context.kind = c.items.map Context.kind
      ∧ (c.shift frames).items.length = c.items.length
      ∧ (c.shift frames).times
          = if frames == Scalar.ofNat 0 then c.times else c.times.map (· + frames) := by
  refine ⟨c.simplify_shift frames, Context.compose_shift frames contexts,
    c.isAnimated_shift frames, c.isDefault_shift frames, ?_, ?_, c.times_shift frames⟩
  · rw [Context.items_shift, List.map_map]
    exact List.map_congr_left fun i _ => i.kind_shift frames
  · rw [Context.items_shift, List.length_map]

end Scenograph
