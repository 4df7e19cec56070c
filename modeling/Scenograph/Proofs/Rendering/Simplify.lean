import Mathlib.Algebra.FreeMonoid.Basic
import Scenograph.Rendering.Simplify

namespace Scenograph

namespace Context

variable {α : Type}

def IsLeaf : Context α → Prop
  | .blendMode _ | .composite _ => False
  | _ => True

theorem blendMode?_of_isLeaf {c : Context α} (h : c.IsLeaf) : c.blendMode? = none := by
  cases c with
  | blendMode mode => cases h
  | _ => rfl

section Rendering

variable {M : Type*} [Monoid M] (draw : Context α → M)

def drawn : List (Context α) → M
  | [] => 1
  | .blendMode _ :: rest => drawn rest
  | c :: rest => draw c * drawn rest

def blendAfter (mode : BlendMode) : List (Context α) → BlendMode
  | [] => mode
  | .blendMode next :: rest => blendAfter next rest
  | _ :: rest => blendAfter mode rest

@[simp] theorem drawn_nil : drawn draw [] = 1 := rfl

theorem drawn_cons_of_some {c : Context α} {mode : BlendMode} (h : c.blendMode? = some mode)
    (rest : List (Context α)) : drawn draw (c :: rest) = drawn draw rest := by
  cases c with
  | blendMode m => rfl
  | _ => cases h

theorem drawn_cons_of_none {c : Context α} (h : c.blendMode? = none) (rest : List (Context α)) :
    drawn draw (c :: rest) = draw c * drawn draw rest := by
  cases c with
  | blendMode m => cases h
  | _ => rfl

theorem drawn_append (items rest : List (Context α)) :
    drawn draw (items ++ rest) = drawn draw items * drawn draw rest := by
  induction items with
  | nil => simp
  | cons c items ih =>
      rw [List.cons_append]
      cases h : c.blendMode? with
      | some mode => rw [drawn_cons_of_some draw h, drawn_cons_of_some draw h, ih]
      | none => rw [drawn_cons_of_none draw h, drawn_cons_of_none draw h, ih, mul_assoc]

theorem drawn_filter {keep : Context α → Bool}
    (h : ∀ c, keep c = false → c.blendMode? = none → draw c = 1) (items : List (Context α)) :
    drawn draw (items.filter keep) = drawn draw items := by
  induction items with
  | nil => rfl
  | cons c items ih =>
      cases hkeep : keep c with
      | true =>
          rw [List.filter_cons_of_pos hkeep]
          cases hmode : c.blendMode? with
          | some mode => rw [drawn_cons_of_some draw hmode, drawn_cons_of_some draw hmode, ih]
          | none => rw [drawn_cons_of_none draw hmode, drawn_cons_of_none draw hmode, ih]
      | false =>
          rw [List.filter_cons_of_neg (by simp [hkeep]), ih]
          cases hmode : c.blendMode? with
          | some mode => rw [drawn_cons_of_some draw hmode]
          | none => rw [drawn_cons_of_none draw hmode, h c hkeep hmode, one_mul]

theorem drawn_collapseBlendModes (items : List (Context α)) :
    drawn draw (collapseBlendModes items) = drawn draw items := by
  have hothers : drawn draw (items.filter fun c => c.blendMode?.isNone) = drawn draw items :=
    drawn_filter draw (fun c hkeep hmode => by simp [hmode] at hkeep) items
  unfold collapseBlendModes
  split
  · next mode _ =>
      split
      · exact hothers
      · rw [drawn_append, hothers]
        exact mul_one _
  · exact hothers

end Rendering

theorem blendAfter_cons_of_some {c : Context α} {next : BlendMode} (h : c.blendMode? = some next)
    (mode : BlendMode) (rest : List (Context α)) :
    blendAfter mode (c :: rest) = blendAfter next rest := by
  cases c with
  | blendMode m =>
      cases h
      rfl
  | _ => cases h

theorem blendAfter_cons_of_none {c : Context α} (h : c.blendMode? = none) (mode : BlendMode)
    (rest : List (Context α)) : blendAfter mode (c :: rest) = blendAfter mode rest := by
  cases c with
  | blendMode m => cases h
  | _ => rfl

theorem blendAfter_append (mode : BlendMode) (items rest : List (Context α)) :
    blendAfter mode (items ++ rest) = blendAfter (blendAfter mode items) rest := by
  induction items generalizing mode with
  | nil => rfl
  | cons c items ih =>
      rw [List.cons_append]
      cases h : c.blendMode? with
      | some next => rw [blendAfter_cons_of_some h, blendAfter_cons_of_some h, ih]
      | none => rw [blendAfter_cons_of_none h, blendAfter_cons_of_none h, ih]

theorem blendAfter_filter {keep : Context α → Bool}
    (h : ∀ c, keep c = false → c.blendMode? = none) (mode : BlendMode) (items : List (Context α)) :
    blendAfter mode (items.filter keep) = blendAfter mode items := by
  induction items generalizing mode with
  | nil => rfl
  | cons c items ih =>
      cases hkeep : keep c with
      | false =>
          rw [List.filter_cons_of_neg (by simp [hkeep]), blendAfter_cons_of_none (h c hkeep), ih]
      | true =>
          rw [List.filter_cons_of_pos hkeep]
          cases hmode : c.blendMode? with
          | some next => rw [blendAfter_cons_of_some hmode, blendAfter_cons_of_some hmode, ih]
          | none => rw [blendAfter_cons_of_none hmode, blendAfter_cons_of_none hmode, ih]

theorem blendAfter_eq (mode : BlendMode) (items : List (Context α)) :
    blendAfter mode items = (lastBlendMode items).getD mode := by
  induction items generalizing mode with
  | nil => rfl
  | cons c items ih =>
      cases h : c.blendMode? with
      | some next =>
          rw [blendAfter_cons_of_some h, ih, lastBlendMode, lastBlendMode,
            List.filterMap_cons_some h, List.getLast?_cons, Option.getD_some]
      | none =>
          rw [blendAfter_cons_of_none h, ih, lastBlendMode, lastBlendMode,
            List.filterMap_cons_none h]

theorem blendAfter_of_no_modes {items : List (Context α)} (h : ∀ c ∈ items, c.blendMode? = none)
    (mode : BlendMode) : blendAfter mode items = mode := by
  have hnone : items.filterMap blendMode? = [] := List.filterMap_eq_nil_iff.2 h
  simp [blendAfter_eq, lastBlendMode, hnone]

theorem blendAfter_collapseBlendModes (items : List (Context α)) :
    blendAfter .normal (collapseBlendModes items) = blendAfter .normal items := by
  have hothers : blendAfter .normal (items.filter fun c => c.blendMode?.isNone) = .normal := by
    apply blendAfter_of_no_modes
    intro c hc
    simpa using (List.mem_filter.1 hc).2
  rw [blendAfter_eq .normal items]
  unfold collapseBlendModes
  split
  · next mode hlast =>
      rw [hlast, Option.getD_some]
      split
      · next hidentity =>
          -- the mode that is left out is the one in force without any
          have hmode : mode = .normal := by simpa [BlendMode.isIdentity] using hidentity
          rw [hothers, hmode]
      · rw [blendAfter_append]
        rfl
  · next hlast => rw [hothers, hlast, Option.getD_none]

section Scalar

variable [Scalar α]

theorem not_needed {c : Context α} (h : c.isNeeded = false) :
    c.IsLeaf ∧ c.isDefault = true := by
  cases c with
  | anchor a =>
      simp only [isNeeded, Bool.or_eq_false_iff, Bool.not_eq_false'] at h
      simp [IsLeaf, isDefault, Animatable.isAlways, h.1, h.2]
  | position a =>
      simp only [isNeeded, Bool.or_eq_false_iff, Bool.not_eq_false'] at h
      simp [IsLeaf, isDefault, Animatable.isAlways, h.1, h.2]
  | scale a =>
      simp only [isNeeded, Bool.or_eq_false_iff, Bool.not_eq_false'] at h
      simp [IsLeaf, isDefault, Animatable.isAlways, h.1, h.2]
  | rotation a => exact ⟨trivial, by simpa [isNeeded, isDefault] using h⟩
  | opacity a => exact ⟨trivial, by simpa [isNeeded, isDefault] using h⟩
  | blendMode mode => cases h
  | composite items => cases h

end Scalar

end Context

theorem simplify_keeps_rendering {α : Type} [Scalar α] {M : Type*} [Monoid M]
    (draw : Context α → M)
    (hdraw : ∀ c : Context α, c.IsLeaf → c.isDefault = true → draw c = 1)
    (items : List (Context α)) :
    Context.drawn draw (Context.composite items).simplify.items = Context.drawn draw items
      ∧ Context.blendAfter .normal (Context.composite items).simplify.items
          = Context.blendAfter .normal items := by
  have hneeded : ∀ c : Context α, c.isNeeded = false → c.blendMode? = none := fun c hc =>
    Context.blendMode?_of_isLeaf (Context.not_needed hc).1
  constructor
  · calc Context.drawn draw (Context.collapseBlendModes (items.filter Context.isNeeded))
        = Context.drawn draw (items.filter Context.isNeeded) :=
          Context.drawn_collapseBlendModes draw _
      _ = Context.drawn draw items := by
          refine Context.drawn_filter draw (fun c hc _ => ?_) items
          obtain ⟨hleaf, hdefault⟩ := Context.not_needed hc
          exact hdraw c hleaf hdefault
  · calc Context.blendAfter .normal (Context.collapseBlendModes (items.filter Context.isNeeded))
        = Context.blendAfter .normal (items.filter Context.isNeeded) :=
          Context.blendAfter_collapseBlendModes _
      _ = Context.blendAfter .normal items := Context.blendAfter_filter hneeded .normal items

def layeredItems : List (Context Float) :=
  [.rotation (.constant 90), .blendMode .multiply, .opacity (.constant 1), .blendMode .screen,
    .position (.constant ⟨2, 3⟩)]

def drawKind (c : Context Float) : FreeMonoid String :=
  if c.isDefault then 1 else .of c.kind

theorem simplify_keeps_rendering_layeredItems :
    (∀ c : Context Float, c.IsLeaf → c.isDefault = true → drawKind c = 1)
      ∧ Context.drawn drawKind (Context.composite layeredItems).simplify.items
          = .of "Rotation" * .of "Position"
      ∧ Context.blendAfter .normal (Context.composite layeredItems).simplify.items = .screen := by
  have hdraw : ∀ c : Context Float, c.IsLeaf → c.isDefault = true → drawKind c = 1 := by
    intro c _ hdefault
    simp [drawKind, hdefault]
  obtain ⟨hdrawn, hblend⟩ := simplify_keeps_rendering drawKind hdraw layeredItems
  have hrotation : (Context.rotation (.constant 90) : Context Float).isDefault = false := by decide
  have hopacity : (Context.opacity (.constant 1) : Context Float).isDefault = true := by decide
  have hposition : (Context.position (.constant ⟨2, 3⟩) : Context Float).isDefault = false := by
    decide
  refine ⟨hdraw, hdrawn.trans ?_, hblend.trans rfl⟩
  simp [layeredItems, Context.drawn, drawKind, hrotation, hopacity, hposition, Context.kind]

end Scenograph
