import Scenograph.Rendering.Context

namespace Scenograph

namespace Context

variable {α : Type}

def isComposite : Context α → Bool
  | .composite _ => true
  | _ => false

/-- No composite stands directly in a composite. It is enough to look at the items: a deeper one
would stand in an item that is a composite. -/
def IsFlat : Context α → Prop
  | .composite items => ∀ c ∈ items, c.isComposite = false
  | _ => True

inductive Composed (given : Context α → Prop) : Context α → Prop
  | given {c : Context α} (h : given c) : Composed given c
  | compose {contexts : List (Context α)} (h : ∀ c ∈ contexts, Composed given c) :
      Composed given (compose contexts)
  | add {a b : Context α} (ha : Composed given a) (hb : Composed given b) : Composed given (a + b)

theorem isFlat_of_not_composite {c : Context α} (h : c.isComposite = false) : c.IsFlat := by
  cases c with
  | composite items => cases h
  | _ => trivial

theorem isFlat_iff_items (c : Context α) : c.IsFlat ↔ ∀ i ∈ c.items, i.isComposite = false := by
  cases c with
  | composite items => rfl
  | _ => simp [IsFlat, items, isComposite]

theorem allFlat_iff_items (contexts : List (Context α)) :
    (∀ c ∈ contexts, c.IsFlat) ↔ ∀ i ∈ contexts.flatMap items, i.isComposite = false := by
  simp only [isFlat_iff_items, List.mem_flatMap]
  constructor
  · rintro h i ⟨c, hc, hi⟩
    exact h c hc i hi
  · intro h c hc i hi
    exact h i ⟨c, hc, hi⟩

theorem isFlat_ofItems_iff (items : List (Context α)) :
    (ofItems items).IsFlat ↔
      (∀ i ∈ items, i.isComposite = false) ∨ ∃ c, items = [c] ∧ c.IsFlat := by
  fun_cases ofItems items with
  | case1 c =>
      constructor
      · intro h
        exact .inr ⟨c, rfl, h⟩
      · rintro (h | ⟨d, hd, hflat⟩)
        · exact isFlat_of_not_composite (h c (by simp))
        · cases hd
          exact hflat
  | case2 items hsingle =>
      constructor
      · exact .inl
      · rintro (h | ⟨c, hc, -⟩)
        · exact h
        · exact absurd hc (hsingle c)

theorem isFlat_compose_iff (contexts : List (Context α)) :
    (compose contexts).IsFlat ↔
      (∀ c ∈ contexts, c.IsFlat) ∨ ∃ c, contexts.flatMap items = [c] ∧ c.IsFlat := by
  rw [compose, isFlat_ofItems_iff, allFlat_iff_items]

theorem Composed.isFlat {given : Context α → Prop} (hgiven : ∀ c, given c → c.IsFlat)
    {c : Context α} (h : Composed given c) : c.IsFlat := by
  induction h with
  | given h => exact hgiven _ h
  | @compose contexts _ ih => exact (isFlat_compose_iff contexts).2 (.inl ih)
  | @add a b _ _ iha ihb =>
      refine (isFlat_compose_iff [a, b]).2 (.inl ?_)
      simp [iha, ihb]

end Context

theorem compose_flat_exactly {α : Type} (contexts : List (Context α)) (given : Context α → Prop) :
    ((Context.compose contexts).IsFlat ↔
        (∀ c ∈ contexts, c.IsFlat) ∨ ∃ c, contexts.flatMap Context.items = [c] ∧ c.IsFlat)
      ∧ ((∀ c, Context.Composed given c → c.IsFlat) ↔ ∀ c, given c → c.IsFlat) := by
  refine ⟨Context.isFlat_compose_iff contexts, ?_⟩
  constructor
  · intro h c hc
    exact h c (.given hc)
  · intro h c hc
    exact hc.isFlat h

def doublyNested : Context Float :=
  .composite [.composite [.blendMode .add, .blendMode .screen], .blendMode .multiply]

theorem compose_flat_exactly_doublyNested :
    ¬(Context.compose [.empty, doublyNested]).IsFlat
      ∧ ¬(Context.empty + doublyNested).IsFlat := by
  have hitems : [Context.empty, doublyNested].flatMap Context.items = doublyNested.items := rfl
  have hnested : ¬doublyNested.IsFlat := by
    intro h
    exact absurd (h (.composite [.blendMode .add, .blendMode .screen]) (by simp)) (by decide)
  have hcompose : ¬(Context.compose [.empty, doublyNested]).IsFlat := by
    rw [(compose_flat_exactly [.empty, doublyNested] fun _ => True).1]
    rintro (h | ⟨c, hc, -⟩)
    · exact hnested (h doublyNested (by simp))
    · rw [hitems] at hc
      cases hc
  exact ⟨hcompose, hcompose⟩

end Scenograph
