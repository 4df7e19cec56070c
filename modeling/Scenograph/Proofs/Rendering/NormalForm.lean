import Mathlib.Algebra.Order.Ring.Nat
import Scenograph.Proofs.Rendering.Compose
import Scenograph.Rendering.Simplify

namespace Scenograph

namespace Context

variable {α : Type}

def others (items : List (Context α)) : List (Context α) :=
  items.filter fun c => c.blendMode?.isNone

def finalMode (items : List (Context α)) : Option BlendMode :=
  (lastBlendMode items).filter fun mode => !mode.isIdentity

def isMovingVector : Context α → Bool
  | .anchor a | .position a | .scale a => a.isAnimated
  | _ => false

theorem blendMode?_eq_some {c : Context α} {mode : BlendMode} :
    c.blendMode? = some mode ↔ c = .blendMode mode := by
  cases c <;> simp [blendMode?]

theorem mem_modes {items : List (Context α)} {mode : BlendMode} :
    .blendMode mode ∈ items ↔ mode ∈ items.filterMap blendMode? := by
  simp [List.mem_filterMap, blendMode?_eq_some]

theorem mem_others {items : List (Context α)} {c : Context α} :
    c ∈ others items ↔ c ∈ items ∧ c.blendMode? = none := by
  simp [others]

theorem others_append_modes {rest : List (Context α)} (h : ∀ c ∈ rest, c.blendMode? = none)
    (modes : List BlendMode) : others (rest ++ modes.map .blendMode) = rest := by
  have hrest : others rest = rest := List.filter_eq_self.2 fun c hc => by simp [h c hc]
  have hmodes : others (modes.map .blendMode : List (Context α)) = [] := by
    simp [others, blendMode?]
  rw [others, List.filter_append, ← others, ← others, hrest, hmodes, List.append_nil]

theorem filterMap_append_modes {rest : List (Context α)} (h : ∀ c ∈ rest, c.blendMode? = none)
    (modes : List BlendMode) : (rest ++ modes.map blendMode).filterMap blendMode? = modes := by
  have hmodes : (modes.map .blendMode : List (Context α)).filterMap blendMode? = modes := by
    rw [List.filterMap_map]
    exact List.filterMap_some
  rw [List.filterMap_append, List.filterMap_eq_nil_iff.2 h, List.nil_append, hmodes]

theorem lastBlendMode_eq_some {items : List (Context α)} {mode : BlendMode} :
    lastBlendMode items = some mode ↔
      ∃ before after, items = before ++ Context.blendMode mode :: after
        ∧ ∀ c ∈ after, c.blendMode? = none := by
  constructor
  · intro h
    obtain ⟨modes, hmodes⟩ := List.getLast?_eq_some_iff.1 h
    obtain ⟨before, rest, rfl, -, hrest⟩ := List.filterMap_eq_append_iff.1 hmodes
    obtain ⟨between, c, after, rfl, -, hc, hafter⟩ := List.filterMap_eq_cons_iff.1 hrest
    rw [blendMode?_eq_some.1 hc]
    exact ⟨before ++ between, after, by simp, List.filterMap_eq_nil_iff.1 hafter⟩
  · rintro ⟨before, after, rfl, hafter⟩
    rw [lastBlendMode, List.filterMap_append,
      List.filterMap_cons_some (blendMode?_eq_some.2 rfl), List.filterMap_eq_nil_iff.2 hafter,
      List.getLast?_concat]

theorem finalMode_eq_some {items : List (Context α)} {mode : BlendMode} :
    finalMode items = some mode ↔ lastBlendMode items = some mode ∧ mode ≠ .normal := by
  simp [finalMode, Option.filter_eq_some_iff, BlendMode.isIdentity]

theorem collapseBlendModes_eq (items : List (Context α)) :
    collapseBlendModes items = others items ++ (finalMode items).toList.map .blendMode := by
  unfold collapseBlendModes finalMode
  cases lastBlendMode items with
  | none => exact (List.append_nil _).symm
  | some mode => cases h : mode.isIdentity <;> simp [others, h, Option.filter_some]

section Scalar

variable [Scalar α]

/-- What has to stay is what is not at its default and, at its default or not, a moving vector.
Composites and blend modes are not judged here. -/
theorem isNeeded_eq (c : Context α) :
    c.isNeeded = (c.isComposite || c.blendMode?.isSome || !c.isDefault || c.isMovingVector) := by
  cases c with
  | anchor a | position a | scale a =>
      cases h : a.isAnimated <;>
        simp [isNeeded, isDefault, isMovingVector, isComposite, blendMode?, Animatable.isAlways, h]
  | rotation a | opacity a =>
      simp [isNeeded, isDefault, isMovingVector, isComposite, blendMode?]
  | blendMode mode => simp [isNeeded, blendMode?]
  | composite items => simp [isNeeded, isComposite]

theorem lastBlendMode_needed (items : List (Context α)) :
    lastBlendMode (items.filter isNeeded) = lastBlendMode items := by
  have hmode : ∀ c : Context α, (if c.isNeeded then c.blendMode? else none) = c.blendMode? := by
    intro c
    cases c <;> simp [isNeeded, blendMode?]
  simp only [lastBlendMode, List.filterMap_filter, hmode]

inductive IsNormal : List (Context α) → Prop
  | mk (rest : List (Context α)) (mode : Option BlendMode)
      (hrest : ∀ c ∈ rest, c.blendMode? = none ∧ c.isNeeded = true)
      (hmode : ∀ m ∈ mode, m ≠ .normal) : IsNormal (rest ++ mode.toList.map .blendMode)

theorem simplify_composite (items : List (Context α)) :
    (composite items).simplify =
      .composite (others (items.filter isNeeded) ++ (finalMode items).toList.map .blendMode) := by
  rw [simplify, collapseBlendModes_eq, finalMode, lastBlendMode_needed]
  rfl

theorem isNormal_simplify (items : List (Context α)) :
    IsNormal (others (items.filter isNeeded) ++ (finalMode items).toList.map .blendMode) := by
  refine .mk _ _ ?_ ?_
  · intro c hc
    obtain ⟨hneeded, hmode⟩ := mem_others.1 hc
    exact ⟨hmode, (List.mem_filter.1 hneeded).2⟩
  · intro mode hmode
    exact (finalMode_eq_some.1 hmode).2

theorem simplify_of_normal {items : List (Context α)} (h : IsNormal items) :
    (composite items).simplify = .composite items := by
  obtain ⟨rest, mode, hrest, hmode⟩ := h
  have hplain : ∀ c ∈ rest, c.blendMode? = none := fun c hc => (hrest c hc).1
  have hneeded : (rest ++ mode.toList.map blendMode).filter isNeeded
      = rest ++ mode.toList.map blendMode := by
    refine List.filter_eq_self.2 fun c hc => ?_
    rcases List.mem_append.1 hc with hc | hc
    · exact (hrest c hc).2
    · obtain ⟨m, -, rfl⟩ := List.mem_map.1 hc
      rfl
  have hfinal : finalMode (rest ++ mode.toList.map blendMode) = mode := by
    rw [finalMode, lastBlendMode, filterMap_append_modes hplain]
    cases mode with
    | none => rfl
    | some m => simp [Option.filter_some, BlendMode.isIdentity, hmode m rfl]
  rw [simplify_composite, hneeded, others_append_modes hplain, hfinal]

theorem simplify_simplify (c : Context α) : c.simplify.simplify = c.simplify := by
  cases c with
  | composite items =>
      rw [simplify_composite]
      exact simplify_of_normal (isNormal_simplify items)
  | _ => rfl

structure NormalFormOf (items kept : List (Context α)) : Prop where
  sublist : (others kept).Sublist (others items)
  stays : others kept
    = (others items).filter fun c => c.isComposite || !c.isDefault || c.isMovingVector
  survivor : ∀ c ∈ kept, c.isComposite = false → c.isDefault = false ∨ c.isMovingVector = true
  oneMode : (kept.filterMap blendMode?).length ≤ 1
  modeEnds : ∀ mode, .blendMode mode ∈ kept → kept.getLast? = some (.blendMode mode)
  mode : ∀ mode, .blendMode mode ∈ kept ↔
    mode ≠ .normal ∧ ∃ before after, items = before ++ .blendMode mode :: after
      ∧ ∀ c ∈ after, c.blendMode? = none

theorem others_needed (items : List (Context α)) :
    others (items.filter isNeeded)
      = (others items).filter fun c => c.isComposite || !c.isDefault || c.isMovingVector := by
  rw [others, others, List.filter_filter, List.filter_filter]
  refine List.filter_congr fun c _ => ?_
  rw [isNeeded_eq]
  cases hmode : c.blendMode? <;> simp

theorem normalFormOf_simplify (items : List (Context α)) :
    NormalFormOf items
      (others (items.filter isNeeded) ++ (finalMode items).toList.map .blendMode) := by
  have hplain : ∀ c ∈ others (items.filter isNeeded), c.blendMode? = none :=
    fun c hc => (mem_others.1 hc).2
  have hothers := others_append_modes hplain (finalMode items).toList
  have hmodes := filterMap_append_modes hplain (finalMode items).toList
  have hmode : ∀ mode, .blendMode mode ∈
      others (items.filter isNeeded) ++ (finalMode items).toList.map .blendMode
        ↔ finalMode items = some mode := by
    intro mode
    rw [mem_modes, hmodes, Option.mem_toList]
  constructor
  case sublist =>
    rw [hothers, others_needed]
    exact List.filter_sublist
  case stays => rw [hothers, others_needed]
  case survivor =>
    intro c hc hcomposite
    rcases List.mem_append.1 hc with hc | hc
    · have hneeded := (List.mem_filter.1 (mem_others.1 hc).1).2
      rw [isNeeded_eq, hcomposite, hplain c hc] at hneeded
      simpa using hneeded
    · obtain ⟨mode, hkept, rfl⟩ := List.mem_map.1 hc
      have hmode := (finalMode_eq_some.1 (Option.mem_toList.1 hkept)).2
      exact .inl (by simpa [isDefault, BlendMode.isIdentity] using hmode)
  case oneMode =>
    rw [hmodes]
    cases finalMode items <;> simp
  case modeEnds =>
    intro mode h
    rw [(hmode mode).1 h]
    exact List.getLast?_concat
  case mode =>
    intro mode
    rw [hmode, finalMode_eq_some, lastBlendMode_eq_some, and_comm]

end Scalar

end Context

theorem simplify_normalises {α : Type} [Scalar α] (c : Context α) (items : List (Context α)) :
    c.simplify.simplify = c.simplify
      ∧ ∃ kept, (Context.composite items).simplify = .composite kept
          ∧ Context.NormalFormOf items kept := by
  refine ⟨c.simplify_simplify, _, Context.simplify_composite items, ?_⟩
  exact Context.normalFormOf_simplify items

end Scenograph
