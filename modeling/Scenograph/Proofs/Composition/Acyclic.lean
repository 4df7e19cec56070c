import Mathlib.Algebra.Order.BigOperators.Group.List
import Mathlib.Algebra.Order.Ring.Nat
import Scenograph.Proofs.Composition.Validity

namespace Scenograph.Graph

variable {g : Graph}

def Ends (g : Graph) (i : Nat) : Prop :=
  Acc (fun j i => g.Leads i j) i

theorem ends_of_targets {i : Nat} (h : ∀ e ∈ g.edgesOf i, g.Ends e.target) : g.Ends i := by
  refine Acc.intro i fun j hj => ?_
  obtain ⟨e, he, rfl⟩ := leads_iff.1 hj
  exact h e he

theorem ends_of_length_le {i : Nat} (h : g.objects.length ≤ i) : g.Ends i := by
  apply ends_of_targets
  simp [edgesOf, List.getElem?_eq_none h]

def Followed (g : Graph) (above : Option Nat) : List (Nat × List Edge) → Prop
  | [] => True
  | (i, rest) :: frames =>
      (∀ e ∈ g.edgesOf i, e ∈ rest ∨ g.Ends e.target ∨ some e.target = above)
        ∧ g.Followed (some i) frames

theorem Followed.pop {i : Nat} {frames : List (Nat × List Edge)} (h : g.Followed (some i) frames)
    (hi : g.Ends i) : g.Followed none frames := by
  cases frames with
  | nil => trivial
  | cons frame frames =>
      obtain ⟨k, rest⟩ := frame
      refine ⟨fun e he => ?_, h.2⟩
      rcases h.1 e he with hrest | hends | habove
      · exact .inl hrest
      · exact .inr (.inl hends)
      · exact .inr (.inl (Option.some.inj habove ▸ hi))

theorem Followed.advance {i : Nat} {e : Edge} {rest : List Edge}
    {frames : List (Nat × List Edge)} {above : Option Nat}
    (h : g.Followed none ((i, e :: rest) :: frames))
    (he : g.Ends e.target ∨ some e.target = above) :
    g.Followed above ((i, rest) :: frames) := by
  refine ⟨fun d hd => ?_, h.2⟩
  rcases h.1 d hd with hrest | hends | hnone
  · rcases List.mem_cons.1 hrest with rfl | hrest
    · exact .inr he
    · exact .inl hrest
  · exact .inr (.inl hends)
  · cases hnone

theorem findCycle_ends {touched : List Nat} {frames : List (Nat × List Edge)} {all : List Nat}
    (h : g.findCycle touched frames = .ok all)
    (htouched : ∀ i ∈ touched, i ∈ frames.map (·.1) ∨ g.Ends i) (hframes : g.Followed none frames) :
    (∀ i ∈ all, g.Ends i) ∧ ∀ i ∈ touched, i ∈ all := by
  fun_induction findCycle g touched frames with
  | case1 touched =>
      cases h
      exact ⟨fun i hi => by simpa using htouched i hi, fun i hi => hi⟩
  | case2 touched i frames ih =>
      have hi : g.Ends i := ends_of_targets fun e he => by simpa using hframes.1 e he
      apply ih h
      · intro k hk
        rcases htouched k hk with hpath | hends
        · rcases List.mem_cons.1 hpath with rfl | hpath
          · exact .inr hi
          · exact .inl hpath
        · exact .inr hends
      · exact hframes.2.pop hi
  | case3 touched i e rest frames hcycle => cases h
  | case4 touched i e rest frames hpath hold ih =>
      -- the target was left before, so it is on no frame
      have htarget : g.Ends e.target := by
        rcases hold with hold | hold
        · rcases htouched e.target (by simpa using hold) with hmem | hends
          · exact absurd (by simpa using hmem) hpath
          · exact hends
        · exact ends_of_length_le hold
      exact ih h htouched (hframes.advance (.inl htarget))
  | case5 touched i e rest frames hpath hnew ih =>
      have hnext : g.Followed none ((e.target, g.edgesOf e.target) :: (i, rest) :: frames) :=
        ⟨fun d hd => .inl hd, hframes.advance (.inr rfl)⟩
      have hmet : ∀ k ∈ e.target :: touched,
          k ∈ e.target :: i :: frames.map (·.1) ∨ g.Ends k := by
        intro k hk
        rcases List.mem_cons.1 hk with rfl | hk
        · exact .inl (List.mem_cons_self ..)
        · rcases htouched k hk with hmem | hends
          · exact .inl (List.mem_cons_of_mem _ hmem)
          · exact .inr hends
      obtain ⟨hends, hsub⟩ := ih h hmet hnext
      exact ⟨hends, fun k hk => hsub k (List.mem_cons_of_mem _ hk)⟩

theorem findCycleFrom_ends {touched starts all : List Nat}
    (h : g.findCycleFrom touched starts = .ok all) (htouched : ∀ i ∈ touched, g.Ends i) :
    (∀ i ∈ all, g.Ends i) ∧ ∀ i, i ∈ touched ∨ i ∈ starts → i ∈ all := by
  induction starts generalizing touched with
  | nil =>
      cases h
      exact ⟨htouched, fun i hi => by simpa using hi⟩
  | cons start starts ih =>
      rw [findCycleFrom] at h
      split at h
      · next hstart =>
          obtain ⟨hends, hsub⟩ := ih h htouched
          refine ⟨hends, fun i hi => hsub i ?_⟩
          rcases hi with hi | hi
          · exact .inl hi
          · rcases List.mem_cons.1 hi with rfl | hi
            · exact .inl (by simpa using hstart)
            · exact .inr hi
      · obtain ⟨found, hfound, h⟩ := bind_eq_ok.1 h
        have hframes : g.Followed none [(start, g.edgesOf start)] :=
          ⟨fun e he => .inl he, trivial⟩
        obtain ⟨hfoundEnds, hfoundSub⟩ := findCycle_ends hfound (fun i hi => by
          rcases List.mem_cons.1 hi with rfl | hi
          · exact .inl (by simp)
          · exact .inr (htouched i hi)) hframes
        obtain ⟨hends, hsub⟩ := ih h hfoundEnds
        refine ⟨hends, fun i hi => hsub i ?_⟩
        rcases hi with hi | hi
        · exact .inl (hfoundSub i (List.mem_cons_of_mem _ hi))
        · rcases List.mem_cons.1 hi with rfl | hi
          · exact .inl (hfoundSub i (List.mem_cons_self ..))
          · exact .inr hi

theorem ends_of_no_cycle (h : g.cycleFault? = none) (i : Nat) : g.Ends i := by
  unfold cycleFault? at h
  split at h
  · next all hall =>
      by_cases hi : i < g.objects.length
      · obtain ⟨hends, hsub⟩ := findCycleFrom_ends hall (by simp)
        exact hends i (hsub i (.inr (List.mem_range.2 hi)))
      · exact ends_of_length_le (Nat.le_of_not_lt hi)
  · cases h

theorem exists_height (h : ∀ i, g.Ends i) :
    ∃ height : Nat → Nat, ∀ i, ∀ e ∈ g.edgesOf i, height e.target < height i := by
  have wf : WellFounded fun j i => g.Leads i j := ⟨h⟩
  let rise : (i : Nat) → ((j : Nat) → g.Leads i j → Nat) → Nat := fun i below =>
    ((g.edgesOf i).attach.map fun e => below e.1.target (leads_iff.2 ⟨e.1, e.2, rfl⟩) + 1).sum
  refine ⟨wf.fix rise, fun i e he => ?_⟩
  have heq : wf.fix rise i =
      ((g.edgesOf i).attach.map fun e => wf.fix rise e.1.target + 1).sum := wf.fix_eq rise i
  rw [heq]
  have hmem : wf.fix rise e.target + 1 ∈
      (g.edgesOf i).attach.map fun e => wf.fix rise e.1.target + 1 :=
    List.mem_map.2 ⟨⟨e, he⟩, List.mem_attach _ _, rfl⟩
  exact List.le_sum_of_mem hmem

theorem height_of_valid (hg : g.validate = .ok ()) :
    ∃ height : Nat → Nat, ∀ i, ∀ e ∈ g.edgesOf i, height e.target < height i :=
  exists_height (ends_of_no_cycle (cycleFault?_of_valid hg))

end Scenograph.Graph
