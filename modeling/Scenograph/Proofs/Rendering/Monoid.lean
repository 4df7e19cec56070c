import Mathlib.Algebra.Group.Defs
import Scenograph.Proofs.Rendering.Compose

namespace Scenograph

namespace Context

variable {α : Type}

structure IsSettled (c : Context α) : Prop where
  flat : c.IsFlat
  not_single : ∀ i, c ≠ .composite [i]

section Items

variable {items : List (Context α)} (h : ∀ i ∈ items, i.isComposite = false)

include h

theorem items_ofItems : (ofItems items).items = items := by
  fun_cases ofItems items with
  | case1 c =>
      have hleaf := h c (List.mem_singleton_self c)
      cases c with
      | composite => cases hleaf
      | _ => rfl
  | case2 => rfl

theorem isSettled_ofItems : (ofItems items).IsSettled := by
  refine ⟨(isFlat_ofItems_iff items).2 (.inl h), fun i heq => ?_⟩
  have hitems := items_ofItems h
  rw [heq] at hitems
  -- a single item stands for itself, and it is no composite
  subst hitems
  have hleaf := h i (List.mem_singleton_self i)
  rw [show i = .composite [i] from heq] at hleaf
  cases hleaf

end Items

theorem ofItems_items {c : Context α} (h : c.IsSettled) : ofItems c.items = c := by
  cases c with
  | composite items =>
      fun_cases ofItems items with
      | case1 i => exact absurd rfl (h.not_single i)
      | case2 => rfl
  | _ => rfl

section Flat

variable {contexts : List (Context α)} (h : ∀ c ∈ contexts, c.IsFlat)

include h

theorem items_compose : (compose contexts).items = contexts.flatMap items :=
  items_ofItems ((allFlat_iff_items contexts).1 h)

theorem isSettled_compose : (compose contexts).IsSettled :=
  isSettled_ofItems ((allFlat_iff_items contexts).1 h)

end Flat

section Add

variable {a b c : Context α}

theorem flat_pair (ha : a.IsFlat) (hb : b.IsFlat) : ∀ c ∈ [a, b], c.IsFlat :=
  List.forall_mem_cons.2 ⟨ha, List.forall_mem_singleton.2 hb⟩

theorem items_add (ha : a.IsFlat) (hb : b.IsFlat) : (a + b).items = a.items ++ b.items := by
  have hitems : (a + b).items = [a, b].flatMap items := items_compose (flat_pair ha hb)
  simpa using hitems

theorem isSettled_add (ha : a.IsFlat) (hb : b.IsFlat) : (a + b).IsSettled :=
  isSettled_compose (flat_pair ha hb)

theorem add_eq_ofItems (a b : Context α) : a + b = ofItems (a.items ++ b.items) := by
  change ofItems ([a, b].flatMap items) = ofItems (a.items ++ b.items)
  simp

theorem add_assoc_of_flat (ha : a.IsFlat) (hb : b.IsFlat) (hc : c.IsFlat) :
    a + b + c = a + (b + c) := by
  calc a + b + c = ofItems ((a + b).items ++ c.items) := add_eq_ofItems _ _
    _ = ofItems (a.items ++ (b.items ++ c.items)) := by rw [items_add ha hb, List.append_assoc]
    _ = ofItems (a.items ++ (b + c).items) := by rw [items_add hb hc]
    _ = a + (b + c) := (add_eq_ofItems _ _).symm

end Add

theorem compose_singleton (c : Context α) : compose [c] = ofItems c.items := by
  simp [compose]

theorem empty_add (c : Context α) : empty + c = compose [c] := by
  rw [add_eq_ofItems, compose_singleton]
  rfl

theorem add_empty (c : Context α) : c + empty = compose [c] := by
  rw [add_eq_ofItems, compose_singleton]
  exact congrArg ofItems (List.append_nil _)

theorem compose_singleton_eq_self {c : Context α} (h : c.IsFlat) :
    compose [c] = c ↔ ∀ i, c ≠ .composite [i] := by
  constructor
  · intro hself
    exact hself ▸ (isSettled_compose (List.forall_mem_singleton.2 h)).not_single
  · intro hsingle
    rw [compose_singleton]
    exact ofItems_items ⟨h, hsingle⟩

theorem foldl_add {start : Context α} {contexts : List (Context α)} (hstart : start.IsSettled)
    (h : ∀ c ∈ contexts, c.IsFlat) : contexts.foldl (· + ·) start = compose (start :: contexts) := by
  induction contexts generalizing start with
  | nil =>
      rw [compose_singleton]
      exact (ofItems_items hstart).symm
  | cons c contexts ih =>
      obtain ⟨hc, hcontexts⟩ := List.forall_mem_cons.1 h
      have hitems : (start + c).items = start.items ++ c.items := items_add hstart.flat hc
      rw [List.foldl_cons, ih (isSettled_add hstart.flat hc) hcontexts, compose, compose,
        List.flatMap_cons, hitems, List.append_assoc]
      rfl

theorem isSettled_empty : (empty : Context α).IsSettled :=
  ⟨by simp [empty, IsFlat], by simp [empty]⟩

end Context

open Context in
theorem compose_monoid {α : Type} :
    (∀ contexts : List (Context α), (∀ c ∈ contexts, c.IsFlat) →
      (compose contexts).items = contexts.flatMap items
        ∧ (compose contexts).IsFlat ∧ (∀ i, compose contexts ≠ .composite [i])
        ∧ contexts.foldl (· + ·) .empty = compose contexts)
    ∧ (∀ a b c : Context α, a.IsFlat → b.IsFlat → c.IsFlat → a + b + c = a + (b + c))
    ∧ ∀ c : Context α, c.IsFlat → .empty + c = compose [c] ∧ c + .empty = compose [c]
        ∧ (compose [c] = c ↔ ∀ i, c ≠ .composite [i]) := by
  refine ⟨fun contexts h => ?_, fun a b c => add_assoc_of_flat, fun c h => ?_⟩
  · have hsettled := isSettled_compose h
    exact ⟨items_compose h, hsettled.flat, hsettled.not_single, foldl_add isSettled_empty h⟩
  · exact ⟨empty_add c, add_empty c, compose_singleton_eq_self h⟩

def loneMode : Context Float :=
  .composite [.blendMode .add]

def mixedContexts : List (Context Float) :=
  [.empty, loneMode, .blendMode .screen, .composite [.blendMode .multiply, .blendMode .normal]]

theorem compose_monoid_mixedContexts :
    mixedContexts.foldl (· + ·) .empty = .composite
        [.blendMode .add, .blendMode .screen, .blendMode .multiply, .blendMode .normal]
      ∧ .empty + loneMode + .blendMode .screen = .empty + (loneMode + .blendMode .screen)
      ∧ loneMode + .empty = .blendMode .add ∧ Context.compose [loneMode] ≠ loneMode := by
  have hlone : loneMode.IsFlat := by simp [loneMode, Context.IsFlat, Context.isComposite]
  have hflat : ∀ c ∈ mixedContexts, c.IsFlat := by
    simp [mixedContexts, loneMode, Context.IsFlat, Context.isComposite, Context.empty]
  obtain ⟨hcompose, hassoc, hneutral⟩ := compose_monoid (α := Float)
  refine ⟨(hcompose mixedContexts hflat).2.2.2, hassoc _ _ _ ?_ hlone trivial,
    (hneutral loneMode hlone).2.1, fun hself => ?_⟩
  · exact Context.isSettled_empty.flat
  · exact ((hneutral loneMode hlone).2.2.1 hself) (.blendMode .add) rfl

end Scenograph
