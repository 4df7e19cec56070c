import Mathlib.Data.List.Nodup
import Mathlib.Logic.Relation
import Scenograph.Composition.Traversal
import Scenograph.Proofs.Outcome

namespace Scenograph.Graph

variable {g : Graph}

def Leads (g : Graph) (i j : Nat) : Prop :=
  j ∈ g.targetsOf i

def Reachable (g : Graph) (i : Nat) : Prop :=
  ∃ root, g.root = some root ∧ Relation.ReflTransGen g.Leads root i

theorem Reachable.step {i j : Nat} (hi : g.Reachable i) (hij : g.Leads i j) : g.Reachable j := by
  obtain ⟨root, hroot, hpath⟩ := hi
  exact ⟨root, hroot, hpath.tail hij⟩

theorem edgesOf_some {i : Nat} {o : CompositionObject} (h : g.objects[i]? = some o) :
    g.edgesOf i = o.edges := by
  simp [edgesOf, h]

theorem targetsOf_some {i : Nat} {o : CompositionObject} (h : g.objects[i]? = some o) :
    g.targetsOf i = o.edges.map (·.target) := by
  simp [targetsOf, edgesOf_some h]

theorem leads_iff {i j : Nat} : g.Leads i j ↔ ∃ e ∈ g.edgesOf i, e.target = j := by
  simp [Leads, targetsOf]

theorem get_eq_ok {i : Nat} {o : CompositionObject} : g.get i = .ok o ↔ g.objects[i]? = some o := by
  unfold get
  cases g.objects[i]? <;> simp

theorem getRoot_eq_ok {root : Nat} : g.getRoot = .ok root ↔ g.root = some root := by
  unfold getRoot
  cases g.root <;> simp

theorem visit_nil (seen : List Nat) : g.visit seen [] = .ok seen := by
  rw [visit]

theorem visit_seen {seen waiting : List Nat} {i : Nat} (h : i ∈ seen) :
    g.visit seen (i :: waiting) = g.visit seen waiting := by
  rw [visit, dif_pos (by simpa using h)]

theorem visit_missing {seen waiting : List Nat} {i : Nat} (h : i ∉ seen)
    (hget : g.objects[i]? = none) :
    g.visit seen (i :: waiting) = .error (.structural (.node i) .noSuchObject) := by
  rw [visit, dif_neg (by simpa using h)]
  split
  · rfl
  · simp_all

theorem visit_new {seen waiting : List Nat} {i : Nat} {o : CompositionObject} (h : i ∉ seen)
    (hget : g.objects[i]? = some o) :
    g.visit seen (i :: waiting) = g.visit (seen ++ [i]) (g.targetsOf i ++ waiting) := by
  rw [visit, dif_neg (by simpa using h), targetsOf_some hget]
  split
  · simp_all
  · simp_all

structure Walked (g : Graph) (seen waiting : List Nat) : Prop where
  nodup : seen.Nodup
  present : ∀ i ∈ seen, ∃ o, g.objects[i]? = some o
  closed : ∀ i ∈ seen, ∀ j, g.Leads i j → j ∈ seen ∨ j ∈ waiting

theorem Walked.skip {seen waiting : List Nat} {i : Nat} (h : g.Walked seen (i :: waiting))
    (hi : i ∈ seen) : g.Walked seen waiting where
  nodup := h.nodup
  present := h.present
  closed := by
    intro k hk j hj
    rcases h.closed k hk j hj with hseen | hwait
    · exact .inl hseen
    · rcases List.mem_cons.1 hwait with rfl | hwait
      · exact .inl hi
      · exact .inr hwait

theorem Walked.enter {seen waiting : List Nat} {i : Nat} {o : CompositionObject}
    (h : g.Walked seen (i :: waiting)) (hi : i ∉ seen) (hget : g.objects[i]? = some o) :
    g.Walked (seen ++ [i]) (g.targetsOf i ++ waiting) where
  nodup := by
    rw [List.nodup_append]
    refine ⟨h.nodup, List.nodup_singleton i, ?_⟩
    intro a ha b hb
    rw [List.mem_singleton.1 hb]
    exact fun hab => hi (hab ▸ ha)
  present := by
    intro k hk
    rcases List.mem_append.1 hk with hk | hk
    · exact h.present k hk
    · rw [List.mem_singleton.1 hk]
      exact ⟨o, hget⟩
  closed := by
    intro k hk j hj
    rcases List.mem_append.1 hk with hk | hk
    · rcases h.closed k hk j hj with hseen | hwait
      · exact .inl (List.mem_append_left _ hseen)
      · rcases List.mem_cons.1 hwait with rfl | hwait
        · exact .inl (by simp)
        · exact .inr (List.mem_append_right _ hwait)
    · rw [List.mem_singleton.1 hk] at hj
      exact .inr (List.mem_append_left _ hj)

theorem visit_walked {seen waiting order : List Nat} (h : g.visit seen waiting = .ok order)
    (hw : g.Walked seen waiting) : g.Walked order [] := by
  fun_induction visit g seen waiting with
  | case1 seen =>
      cases h
      exact hw
  | case2 seen i waiting hseen ih => exact ih h (hw.skip (by simpa using hseen))
  | case3 seen i waiting hseen hget => cases h
  | case4 seen i waiting hseen o hget ih =>
      rw [← targetsOf_some hget] at ih h
      exact ih h (hw.enter (by simpa using hseen) hget)

theorem mem_visit {seen waiting order : List Nat} (h : g.visit seen waiting = .ok order) {i : Nat}
    (hi : i ∈ seen ∨ i ∈ waiting) : i ∈ order := by
  fun_induction visit g seen waiting with
  | case1 seen =>
      cases h
      simpa using hi
  | case2 seen j waiting hseen ih =>
      apply ih h
      rcases hi with hi | hi
      · exact .inl hi
      · rcases List.mem_cons.1 hi with rfl | hi
        · exact .inl (by simpa using hseen)
        · exact .inr hi
  | case3 seen j waiting hseen hget => cases h
  | case4 seen j waiting hseen o hget ih =>
      apply ih h
      rcases hi with hi | hi
      · exact .inl (List.mem_append_left _ hi)
      · rcases List.mem_cons.1 hi with rfl | hi
        · exact .inl (by simp)
        · exact .inr (List.mem_append_right _ hi)

theorem visit_sound {P : Nat → Prop} (hstep : ∀ i j, P i → g.Leads i j → P j)
    {seen waiting order : List Nat} (h : g.visit seen waiting = .ok order)
    (hseen : ∀ i ∈ seen, P i) (hwait : ∀ i ∈ waiting, P i) : ∀ i ∈ order, P i := by
  fun_induction visit g seen waiting with
  | case1 seen =>
      cases h
      exact hseen
  | case2 seen j waiting _ ih => exact ih h hseen fun i hi => hwait i (List.mem_cons_of_mem _ hi)
  | case3 seen j waiting _ hget => cases h
  | case4 seen j waiting _ o hget ih =>
      have hj : P j := hwait j (List.mem_cons_self ..)
      apply ih h
      · intro i hi
        rcases List.mem_append.1 hi with hi | hi
        · exact hseen i hi
        · exact List.mem_singleton.1 hi ▸ hj
      · intro i hi
        rcases List.mem_append.1 hi with hi | hi
        · exact hstep j i hj (by simpa [Leads, targetsOf_some hget] using hi)
        · exact hwait i (List.mem_cons_of_mem _ hi)

theorem preorder_eq_ok {order : List Nat} :
    g.preorder = .ok order ↔ ∃ root, g.root = some root ∧ g.visit [] [root] = .ok order := by
  simp only [preorder, bind_eq_ok, getRoot_eq_ok]

theorem preorder_walked {order : List Nat} (h : g.preorder = .ok order) : g.Walked order [] := by
  obtain ⟨root, _, hvisit⟩ := preorder_eq_ok.1 h
  exact visit_walked hvisit ⟨List.nodup_nil, by simp, by simp⟩

theorem mem_preorder {order : List Nat} (h : g.preorder = .ok order) {i : Nat} :
    i ∈ order ↔ g.Reachable i := by
  obtain ⟨root, hroot, hvisit⟩ := preorder_eq_ok.1 h
  constructor
  · apply visit_sound (fun _ _ => Reachable.step) hvisit (by simp)
    intro j hj
    exact ⟨root, hroot, List.mem_singleton.1 hj ▸ .refl⟩
  · rintro ⟨root', hroot', hpath⟩
    have heq : root' = root := Option.some.inj (hroot'.symm.trans hroot)
    subst heq
    induction hpath with
    | refl => exact mem_visit hvisit (.inr (by simp))
    | tail _ hstep ih => simpa using (preorder_walked h).closed _ ih _ hstep

theorem preorder_nodup {order : List Nat} (h : g.preorder = .ok order) : order.Nodup :=
  (preorder_walked h).nodup

theorem object_of_mem_preorder {order : List Nat} (h : g.preorder = .ok order) {i : Nat}
    (hi : i ∈ order) : ∃ o, g.objects[i]? = some o :=
  (preorder_walked h).present i hi

theorem visit_ok (hpresent : ∀ i, ∀ e ∈ g.edgesOf i, ∃ o, g.objects[e.target]? = some o)
    (seen : List Nat) {waiting : List Nat} (hwait : ∀ i ∈ waiting, ∃ o, g.objects[i]? = some o) :
    ∃ order, g.visit seen waiting = .ok order := by
  fun_induction visit g seen waiting with
  | case1 seen => exact ⟨seen, rfl⟩
  | case2 seen j waiting _ ih => exact ih fun i hi => hwait i (List.mem_cons_of_mem _ hi)
  | case3 seen j waiting _ hget =>
      obtain ⟨o, ho⟩ := hwait j (List.mem_cons_self ..)
      simp [hget] at ho
  | case4 seen j waiting _ o hget ih =>
      apply ih
      intro i hi
      rcases List.mem_append.1 hi with hi | hi
      · obtain ⟨e, he, rfl⟩ := List.mem_map.1 hi
        exact hpresent j e (by rwa [edgesOf_some hget])
      · exact hwait i (List.mem_cons_of_mem _ hi)

end Scenograph.Graph
