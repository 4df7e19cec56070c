import Mathlib.Data.List.Nodup
import Scenograph.Proofs.Composition.Reachability

namespace Scenograph

theorem unseen_le {n : Nat} {seen seen' : List Nat} (h : seen ⊆ seen') :
    unseen n seen' ≤ unseen n seen := by
  apply List.countP_mono_left
  intro i _ hi
  simp only [Bool.not_eq_true', List.contains_eq_mem, decide_eq_false_iff_not] at hi ⊢
  exact fun hseen => hi (h hseen)

namespace Graph

variable {g : Graph}

theorem targetsOf_none {i : Nat} (h : g.objects[i]? = none) : g.targetsOf i = [] := by
  simp [targetsOf, edgesOf, h]

def depthFirst (g : Graph) (seen : List Nat) : List Nat → { order : List Nat // seen <+: order }
  | [] => ⟨seen, List.prefix_rfl⟩
  | i :: rest =>
      if _hseen : i ∈ seen then depthFirst g seen rest
      else
        let below := depthFirst g (seen ++ [i]) (g.targetsOf i)
        let order := depthFirst g below.1 rest
        ⟨order.1, (List.prefix_append seen [i]).trans (below.2.trans order.2)⟩
termination_by ids => (unseen g.objects.length seen, ids.length)
decreasing_by
  · exact Prod.Lex.right _ (by simp)
  · cases hget : g.objects[i]? with
    | none =>
        rw [targetsOf_none hget]
        have hle : unseen g.objects.length (seen ++ [i]) ≤ unseen g.objects.length seen :=
          unseen_le (List.subset_append_left _ _)
        rcases Nat.lt_or_eq_of_le hle with hlt | heq
        · exact Prod.Lex.left _ _ hlt
        · rw [heq]
          exact Prod.Lex.right _ (by simp)
    | some o =>
        apply Prod.Lex.left
        apply unseen_lt (List.getElem?_eq_some_iff.1 hget).1
        · simpa using _hseen
        · simp
        · intro j hj
          simp at hj ⊢
          exact .inl hj
  · have hle : unseen g.objects.length below.1 ≤ unseen g.objects.length seen :=
      unseen_le ((List.prefix_append seen [i]).trans below.2).subset
    rcases Nat.lt_or_eq_of_le hle with hlt | heq
    · exact Prod.Lex.left _ _ hlt
    · rw [heq]
      exact Prod.Lex.right _ (by simp)

theorem mem_depthFirst {seen ids : List Nat} {i : Nat} (hi : i ∈ ids) :
    i ∈ (g.depthFirst seen ids).1 := by
  fun_induction depthFirst g seen ids with
  | case1 seen => cases hi
  | case2 seen j rest hseen ih =>
      rcases List.mem_cons.1 hi with rfl | hi
      · exact (g.depthFirst seen rest).2.subset hseen
      · exact ih hi
  | case3 seen j rest hseen below order _ ih =>
      rcases List.mem_cons.1 hi with rfl | hi
      · exact order.2.subset (below.2.subset (by simp))
      · exact ih hi

theorem depthFirst_nodup {seen ids : List Nat} (h : seen.Nodup) :
    (g.depthFirst seen ids).1.Nodup := by
  fun_induction depthFirst g seen ids with
  | case1 seen => exact h
  | case2 seen j rest hseen ih => exact ih h
  | case3 seen j rest hseen below order ihbelow ih =>
      apply ih
      apply ihbelow
      simpa using h.concat hseen

theorem depthFirst_closed {seen ids : List Nat} {i j : Nat} (hi : i ∈ (g.depthFirst seen ids).1)
    (hij : g.Leads i j) : i ∈ seen ∨ j ∈ (g.depthFirst seen ids).1 := by
  fun_induction depthFirst g seen ids with
  | case1 seen => exact .inl hi
  | case2 seen k rest hseen ih => exact ih hi
  | case3 seen k rest hseen below order ihbelow ih =>
      rcases ih hi with hbelow | hj
      · rcases ihbelow hbelow with hfirst | hj
        · rcases List.mem_append.1 hfirst with hi | hi
          · exact .inl hi
          · rw [List.mem_singleton.1 hi] at hij
            exact .inr (order.2.subset (mem_depthFirst hij))
        · exact .inr (order.2.subset hj)
      · exact .inr hj

theorem depthFirst_sound {P : Nat → Prop} (hstep : ∀ i j, P i → g.Leads i j → P j)
    {seen ids : List Nat} (hseen : ∀ i ∈ seen, P i) (hids : ∀ i ∈ ids, P i) :
    ∀ i ∈ (g.depthFirst seen ids).1, P i := by
  fun_induction depthFirst g seen ids with
  | case1 seen => exact hseen
  | case2 seen k rest _ ih => exact ih hseen fun i hi => hids i (List.mem_cons_of_mem _ hi)
  | case3 seen k rest _ below order ihbelow ih =>
      have hk : P k := hids k (List.mem_cons_self ..)
      have hbelow : ∀ i ∈ below.1, P i := by
        apply ihbelow
        · intro i hi
          rcases List.mem_append.1 hi with hi | hi
          · exact hseen i hi
          · exact List.mem_singleton.1 hi ▸ hk
        · exact fun i hi => hstep k i hk hi
      exact ih hbelow fun i hi => hids i (List.mem_cons_of_mem _ hi)

def firstMissing? (g : Graph) (ids : List Nat) : Option Nat :=
  ids.find? fun i => (g.objects[i]?).isNone

def presentOrder (g : Graph) (order : List Nat) : Except Fault (List Nat) :=
  match g.firstMissing? order with
  | none => .ok order
  | some i => .error (.structural (.node i) .noSuchObject)

theorem firstMissing?_eq_none {ids : List Nat} :
    g.firstMissing? ids = none ↔ ∀ i ∈ ids, ∃ o, g.objects[i]? = some o := by
  simp only [firstMissing?, List.find?_eq_none, Bool.not_eq_true, Option.isNone_eq_false_iff,
    Option.isSome_iff_exists]

theorem missing_of_firstMissing? {ids : List Nat} {i : Nat} (h : g.firstMissing? ids = some i) :
    i ∈ ids ∧ g.objects[i]? = none := by
  have hnone := List.find?_some (p := fun j => (g.objects[j]?).isNone) h
  exact ⟨List.mem_of_find?_eq_some h, Option.isNone_iff_eq_none.1 hnone⟩

theorem firstMissing?_concat {ids : List Nat} (i : Nat) (h : g.firstMissing? ids = none) :
    g.firstMissing? (ids ++ [i]) = if (g.objects[i]?).isNone then some i else none := by
  rw [firstMissing?] at h ⊢
  rw [List.find?_append, h, Option.none_or, List.find?_singleton]

theorem presentOrder_of_none {ids : List Nat} (h : g.firstMissing? ids = none) :
    g.presentOrder ids = .ok ids := by
  rw [presentOrder, h]

theorem presentOrder_of_some {ids : List Nat} {i : Nat} (h : g.firstMissing? ids = some i) :
    g.presentOrder ids = .error (.structural (.node i) .noSuchObject) := by
  rw [presentOrder, h]

theorem visit_append {seen ids : List Nat} (hseen : g.firstMissing? seen = none)
    (waiting : List Nat) : g.visit seen (ids ++ waiting)
      = g.presentOrder (g.depthFirst seen ids).1 >>= fun order => g.visit order waiting := by
  fun_induction depthFirst g seen ids generalizing waiting with
  | case1 seen => rw [presentOrder_of_none hseen, ok_bind, List.nil_append]
  | case2 seen k rest hmem ih =>
      rw [List.cons_append, visit_seen hmem]
      exact ih hseen waiting
  | case3 seen k rest hnew below order ihbelow ih =>
      cases hget : g.objects[k]? with
      | none =>
          have hfirst : g.firstMissing? (seen ++ [k]) = some k := by
            simp [firstMissing?_concat k hseen, hget]
          have hmissing : g.firstMissing? order.1 = some k :=
            (below.2.trans order.2).find?_eq_some hfirst
          rw [List.cons_append, visit_missing hnew hget, presentOrder_of_some hmissing, error_bind]
      | some o =>
          have hpresent : g.firstMissing? (seen ++ [k]) = none := by
            simp [firstMissing?_concat k hseen, hget]
          -- the targets stand in front of what waits, so they are done with first
          rw [List.cons_append, visit_new hnew hget, ihbelow hpresent]
          cases hbelow : g.firstMissing? below.1 with
          | none =>
              rw [presentOrder_of_none hbelow, ok_bind]
              exact ih hbelow waiting
          | some j =>
              have hmissing : g.firstMissing? order.1 = some j := order.2.find?_eq_some hbelow
              rw [presentOrder_of_some hbelow, presentOrder_of_some hmissing, error_bind, error_bind]

theorem preorder_eq_presentOrder {root : Nat} (hroot : g.root = some root) :
    g.preorder = g.presentOrder (g.depthFirst [] [root]).1 := by
  rw [preorder, getRoot_eq_ok.2 hroot, ok_bind]
  have hvisit : g.visit [] ([root] ++ []) = _ := visit_append rfl []
  rw [List.append_nil] at hvisit
  rw [hvisit]
  cases g.presentOrder (g.depthFirst [] [root]).1 with
  | ok order => exact visit_nil order
  | error fault => rfl

theorem mem_depthFirst_root {root : Nat} (hroot : g.root = some root) {i : Nat} :
    i ∈ (g.depthFirst [] [root]).1 ↔ g.Reachable i := by
  constructor
  · apply depthFirst_sound (fun _ _ => Reachable.step) (by simp)
    intro j hj
    exact ⟨root, hroot, List.mem_singleton.1 hj ▸ .refl⟩
  · rintro ⟨root', hroot', hpath⟩
    have heq : root' = root := Option.some.inj (hroot'.symm.trans hroot)
    subst heq
    induction hpath with
    | refl => exact mem_depthFirst (List.mem_singleton_self _)
    | tail _ hstep ih => simpa using depthFirst_closed ih hstep

end Graph

structure WalksInOrder (g : Graph) (order : List Nat) : Prop where
  nodup : order.Nodup
  mem_iff : ∀ i, i ∈ order ↔ g.Reachable i
  ok_iff : ∀ found, g.preorder = .ok found
    ↔ found = order ∧ ∀ i, g.Reachable i → ∃ o, g.objects[i]? = some o
  error_iff : ∀ fault, g.preorder = .error fault
    ↔ ∃ i, g.firstMissing? order = some i ∧ fault = .structural (.node i) .noSuchObject
  fails_iff : (∃ fault, g.preorder = .error fault) ↔ ∃ i, g.Reachable i ∧ g.objects[i]? = none

theorem preorder_walksInOrder {g : Graph} {root : Nat} (hroot : g.root = some root) :
    WalksInOrder g (g.depthFirst [] [root]).1 := by
  have hnodup : (g.depthFirst [] [root]).1.Nodup := Graph.depthFirst_nodup List.nodup_nil
  have hmem := fun i => Graph.mem_depthFirst_root hroot (i := i)
  have hresult := Graph.preorder_eq_presentOrder hroot
  generalize (g.depthFirst [] [root]).1 = order at hnodup hmem hresult ⊢
  cases hmissing : g.firstMissing? order with
  | none =>
      have hpresent : ∀ i, g.Reachable i → ∃ o, g.objects[i]? = some o := fun i hi =>
        Graph.firstMissing?_eq_none.1 hmissing i ((hmem i).2 hi)
      rw [Graph.presentOrder_of_none hmissing] at hresult
      refine ⟨hnodup, hmem, fun found => ?_, fun fault => ?_, ?_⟩
      · rw [hresult, Except.ok.injEq, eq_comm]
        exact ⟨fun h => ⟨h, hpresent⟩, fun h => h.1⟩
      · simp [hresult, hmissing]
      · simp only [hresult, reduceCtorEq, exists_false, false_iff, not_exists, not_and]
        intro i hi hnone
        obtain ⟨o, ho⟩ := hpresent i hi
        simp [hnone] at ho
  | some i =>
      obtain ⟨hi, hnone⟩ := Graph.missing_of_firstMissing? hmissing
      rw [Graph.presentOrder_of_some hmissing] at hresult
      refine ⟨hnodup, hmem, fun found => ?_, fun fault => ?_, ?_⟩
      · simp only [hresult, reduceCtorEq, false_iff, not_and]
        intro _ hpresent
        obtain ⟨o, ho⟩ := hpresent i ((hmem i).1 hi)
        simp [hnone] at ho
      · simp [hresult, hmissing, eq_comm]
      · exact ⟨fun _ => ⟨i, (hmem i).1 hi, hnone⟩, fun _ => ⟨_, hresult⟩⟩

def tangledScene : Graph where
  objects := [.containerVisual {} [1, 2, 1, 3] [], .containerVisual {} [2, 0] [],
    .containerVisual {} [] [], .containerVisual {} [9, 8] []]
  root := some 0
  bindings := Catalog.empty

theorem preorder_walksInOrder_tangledScene :
    tangledScene.root = some 0 ∧ WalksInOrder tangledScene (tangledScene.depthFirst [] [0]).1
      ∧ tangledScene.preorder = .error (.structural (.node 9) .noSuchObject)
      ∧ (tangledScene.depthFirst [] [0]).1 = [0, 1, 2, 3, 9, 8] :=
  ⟨rfl, preorder_walksInOrder rfl, by cbv, by cbv⟩

end Scenograph
