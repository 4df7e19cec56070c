import Mathlib.Data.List.Permutation
import Mathlib.Data.Set.Card
import Scenograph.Proofs.Composition.Acyclic

namespace Scenograph

section Counting

def countEdge (i : Nat) : List (Nat × Nat) → List (Nat × Nat)
  | [] => [(i, 1)]
  | (j, n) :: rest =>
      if i < j then (i, 1) :: (j, n) :: rest
      else if i = j then (j, n + 1) :: rest
      else (j, n) :: countEdge i rest

variable {keys : List Nat} {i : Nat}

theorem countEdge_map (hkeys : keys.Pairwise (· < ·)) (hi : i ∈ keys) (f : Nat → Nat) :
    countEdge i (keys.map fun j => (j, f j))
      = keys.map fun j => (j, f j + if i = j then 1 else 0) := by
  induction keys with
  | nil => cases hi
  | cons k keys ih =>
      obtain ⟨hk, hrest⟩ := List.pairwise_cons.1 hkeys
      rw [List.map_cons, List.map_cons, countEdge]
      rcases List.mem_cons.1 hi with rfl | hi
      · have hothers : ∀ j ∈ keys, (j, f j) = (j, f j + if i = j then 1 else 0) := by
          intro j hj
          simp [(hk j hj).ne]
        rw [if_neg (Nat.lt_irrefl i), if_pos rfl, if_pos rfl, List.map_congr_left hothers]
      · have hlt : k < i := hk i hi
        rw [if_neg hlt.not_gt, if_neg hlt.ne', if_neg hlt.ne', ih hrest hi, Nat.add_zero]

theorem foldl_countEdge (hkeys : keys.Pairwise (· < ·)) {targets : List Nat}
    (htargets : ∀ i ∈ targets, i ∈ keys) (f : Nat → Nat) :
    targets.foldl (fun degrees i => countEdge i degrees) (keys.map fun j => (j, f j))
      = keys.map fun j => (j, f j + targets.count j) := by
  induction targets generalizing f with
  | nil => simp
  | cons i targets ih =>
      obtain ⟨hi, hrest⟩ := List.forall_mem_cons.1 htargets
      rw [List.foldl_cons, countEdge_map hkeys hi, ih hrest]
      refine List.map_congr_left fun j _ => ?_
      rw [List.count_cons]
      simp only [beq_iff_eq, Prod.mk.injEq, true_and]
      omega

theorem sum_count {targets : List Nat} (hkeys : keys.Nodup) (htargets : ∀ i ∈ targets, i ∈ keys) :
    (keys.map fun i => targets.count i).sum = targets.length := by
  have hcard := Multiset.sum_count_eq_card (s := keys.toFinset) (m := (targets : Multiset Nat))
    fun i hi => List.mem_toFinset.2 (htargets i hi)
  rw [List.sum_toFinset _ hkeys] at hcard
  simpa using hcard

end Counting

namespace Graph

variable {g : Graph} {order : List Nat}

def ascending (order : List Nat) : List Nat :=
  order.mergeSort fun a b => decide (a ≤ b)

def degreesIn (g : Graph) (order : List Nat) : List (Nat × Nat) :=
  (ascending order).map fun i => (i, (order.flatMap g.targetsOf).count i)

/-- The degrees as a loop finds them, over the reachable objects and over the edges of each. -/
def tally (g : Graph) (order : List Nat) : List (Nat × Nat) :=
  order.foldl
    (fun degrees i => (g.targetsOf i).foldl (fun degrees j => countEdge j degrees) degrees)
    ((ascending order).map fun i => (i, 0))

def incoming (g : Graph) (i : Nat) : Set (Nat × Nat) :=
  {x | g.Reachable x.1 ∧ ∃ e, (g.edgesOf x.1)[x.2]? = some e ∧ e.target = i}

def outgoing (g : Graph) : Set (Nat × Nat) :=
  {x | g.Reachable x.1 ∧ x.2 < (g.edgesOf x.1).length}

def positions (g : Graph) (order : List Nat) : List (Nat × Nat) :=
  order.flatMap fun i => (List.range (g.targetsOf i).length).map fun k => (i, k)

theorem ascending_pairwise (h : order.Nodup) : (ascending order).Pairwise (· < ·) := by
  have hle : (ascending order).Pairwise (· ≤ ·) := order.pairwise_mergeSort' (· ≤ ·)
  have hne : (ascending order).Nodup := (List.mergeSort_perm _ _).nodup_iff.2 h
  exact (hle.and hne).imp fun h => Nat.lt_of_le_of_ne h.1 h.2

theorem mem_ascending {i : Nat} : i ∈ ascending order ↔ i ∈ order :=
  List.mem_mergeSort

theorem mem_degreesIn {i n : Nat} :
    (i, n) ∈ g.degreesIn order ↔ i ∈ order ∧ (order.flatMap g.targetsOf).count i = n := by
  simp [degreesIn, mem_ascending]

theorem inDegrees_eq (h : g.preorder = .ok order) : g.inDegrees = .ok (g.degreesIn order) := by
  rw [inDegrees, h]
  rfl

theorem targets_reachable (h : g.preorder = .ok order) :
    ∀ i ∈ order.flatMap g.targetsOf, i ∈ order := by
  intro i hi
  obtain ⟨j, hj, hi⟩ := List.mem_flatMap.1 hi
  exact (mem_preorder h).2 (((mem_preorder h).1 hj).step hi)

theorem tally_eq (h : g.preorder = .ok order) : g.tally order = g.degreesIn order := by
  have hkeys := ascending_pairwise (preorder_nodup h)
  have htargets : ∀ i ∈ order.flatMap g.targetsOf, i ∈ ascending order :=
    fun i hi => mem_ascending.2 (targets_reachable h i hi)
  rw [tally, ← List.foldl_flatMap, foldl_countEdge hkeys htargets fun _ => 0]
  simp [degreesIn]

theorem map_positions (g : Graph) (order : List Nat) :
    (g.positions order).map (fun x => (g.targetsOf x.1)[x.2]?)
      = (order.flatMap g.targetsOf).map some := by
  have hat : ∀ l : List Nat, (List.range l.length).map (fun k => l[k]?) = l.map some := by
    intro l
    apply List.ext_getElem (by simp)
    intro k hk _
    simp at hk
    simp [hk]
  simp [positions, List.map_flatMap, Function.comp_def, hat]

theorem positions_nodup (h : order.Nodup) : (g.positions order).Nodup := by
  rw [positions, List.nodup_flatMap]
  refine ⟨fun i _ => List.nodup_range.map fun _ _ => by simp, ?_⟩
  refine h.imp fun {i j} hne => ?_
  simp [Function.onFun, List.disjoint_left, hne.symm]

theorem mem_positions {x : Nat × Nat} :
    x ∈ g.positions order ↔ x.1 ∈ order ∧ x.2 < (g.targetsOf x.1).length := by
  obtain ⟨i, k⟩ := x
  simp [positions]

theorem encard_of_nodup {l : List (Nat × Nat)} (h : l.Nodup) : {x | x ∈ l}.encard = l.length := by
  rw [← List.coe_toFinset, Set.encard_coe_eq_coe_finsetCard, List.toFinset_card_of_nodup h]

def hits (g : Graph) (i : Nat) (x : Nat × Nat) : Bool :=
  (g.targetsOf x.1)[x.2]? == some i

theorem hits_iff {i : Nat} {x : Nat × Nat} :
    g.hits i x = true ↔ ∃ e, (g.edgesOf x.1)[x.2]? = some e ∧ e.target = i := by
  simp [hits, targetsOf]

theorem incoming_eq (h : g.preorder = .ok order) (i : Nat) :
    g.incoming i = {x | x ∈ (g.positions order).filter (g.hits i)} := by
  ext x
  simp only [incoming, Set.mem_ofPred_eq, List.mem_filter, mem_positions, mem_preorder h, hits_iff]
  constructor
  · rintro ⟨hx, e, he, htarget⟩
    have hlt : x.2 < (g.edgesOf x.1).length := (List.getElem?_eq_some_iff.1 he).1
    exact ⟨⟨hx, by simpa [targetsOf] using hlt⟩, e, he, htarget⟩
  · rintro ⟨⟨hx, -⟩, he⟩
    exact ⟨hx, he⟩

theorem length_filter_hits (g : Graph) (order : List Nat) (i : Nat) :
    ((g.positions order).filter (g.hits i)).length = (order.flatMap g.targetsOf).count i := by
  rw [← List.countP_eq_length_filter, ← List.count_map_of_injective _ _ (Option.some_injective _),
    ← map_positions, List.count, List.countP_map]
  rfl

theorem encard_incoming (h : g.preorder = .ok order) (i : Nat) :
    (g.incoming i).encard = (order.flatMap g.targetsOf).count i := by
  have hnodup := (positions_nodup (g := g) (preorder_nodup h)).filter (g.hits i)
  rw [incoming_eq h, encard_of_nodup hnodup, length_filter_hits]

theorem encard_outgoing (h : g.preorder = .ok order) :
    g.outgoing.encard = (order.flatMap g.targetsOf).length := by
  have hset : g.outgoing = {x | x ∈ g.positions order} := by
    ext x
    simp [outgoing, mem_positions, mem_preorder h, targetsOf]
  have hlength := congrArg List.length (map_positions g order)
  rw [List.length_map, List.length_map] at hlength
  rw [hset, encard_of_nodup (positions_nodup (preorder_nodup h)), hlength]

structure CountsEdges (g : Graph) (degrees : List (Nat × Nat)) : Prop where
  keys_sorted : (degrees.map (·.1)).Pairwise (· < ·)
  mem_keys : ∀ i, i ∈ degrees.map (·.1) ↔ g.Reachable i
  degree : ∀ i n, (i, n) ∈ degrees → (g.incoming i).encard = n
  total : g.outgoing.encard = (degrees.map (·.2)).sum

theorem countsEdges_degreesIn (h : g.preorder = .ok order) :
    g.CountsEdges (g.degreesIn order) := by
  have hkeys := ascending_pairwise (preorder_nodup h)
  refine ⟨?_, ?_, ?_, ?_⟩
  · simpa [degreesIn, Function.comp_def] using hkeys
  · simp [degreesIn, Function.comp_def, mem_ascending, mem_preorder h]
  · intro i n hmem
    rw [encard_incoming h, (mem_degreesIn.1 hmem).2]
  · have hsum := sum_count (hkeys.imp Nat.ne_of_lt)
      (fun i hi => mem_ascending.2 (targets_reachable h i hi))
    rw [encard_outgoing h, ← hsum, degreesIn, List.map_map]
    rfl

theorem height_le {height : Nat → Nat} {i j : Nat}
    (hheight : ∀ i, ∀ e ∈ g.edgesOf i, height e.target < height i)
    (h : Relation.ReflTransGen g.Leads i j) : height j ≤ height i := by
  induction h with
  | refl => exact Nat.le_refl _
  | tail _ hstep ih =>
      obtain ⟨e, he, rfl⟩ := leads_iff.1 hstep
      exact Nat.le_trans (Nat.le_of_lt (hheight _ e he)) ih

-- an edge back to the root would have to lead upwards
theorem not_leads_root {root i : Nat} (hg : g.validate = .ok ()) (hroot : g.root = some root)
    (hi : g.Reachable i) : ¬g.Leads i root := by
  intro hback
  obtain ⟨height, hheight⟩ := height_of_valid hg
  obtain ⟨root', hroot', hpath⟩ := hi
  cases hroot.symm.trans hroot'
  obtain ⟨e, he, heq⟩ := leads_iff.1 hback
  have hup := hheight i e he
  have hdown := height_le hheight hpath
  rw [heq] at hup
  omega

theorem exists_leads {root i : Nat} (hroot : g.root = some root) (hi : g.Reachable i)
    (hne : i ≠ root) : ∃ j, g.Reachable j ∧ g.Leads j i := by
  obtain ⟨root', hroot', hpath⟩ := hi
  cases hroot.symm.trans hroot'
  obtain rfl | ⟨j, hj, hstep⟩ := hpath.cases_tail
  · exact absurd rfl hne
  · exact ⟨j, ⟨root, hroot, hj⟩, hstep⟩

theorem root_mem_degreesIn {root : Nat} (hg : g.validate = .ok ()) (hroot : g.root = some root)
    (h : g.preorder = .ok order) : (root, 0) ∈ g.degreesIn order := by
  refine mem_degreesIn.2 ⟨(mem_preorder h).2 ⟨root, hroot, .refl⟩, ?_⟩
  rw [List.count_eq_zero, List.mem_flatMap]
  rintro ⟨i, hi, hback⟩
  exact not_leads_root hg hroot ((mem_preorder h).1 hi) hback

theorem degree_pos {root i n : Nat} (hroot : g.root = some root) (h : g.preorder = .ok order)
    (hmem : (i, n) ∈ g.degreesIn order) (hne : i ≠ root) : 1 ≤ n := by
  obtain ⟨hi, rfl⟩ := mem_degreesIn.1 hmem
  obtain ⟨j, hj, hstep⟩ := exists_leads hroot ((mem_preorder h).1 hi) hne
  exact List.count_pos_iff.2 (List.mem_flatMap.2 ⟨j, (mem_preorder h).2 hj, hstep⟩)

end Graph

theorem inDegrees_exact (g : Graph) :
    (∀ order, g.preorder = .ok order →
        ∃ degrees, g.inDegrees = .ok degrees ∧ degrees = g.tally order ∧ g.CountsEdges degrees)
      ∧ (g.validate = .ok () →
        ∃ root degrees, g.root = some root ∧ g.inDegrees = .ok degrees ∧ (root, 0) ∈ degrees
          ∧ ∀ i n, (i, n) ∈ degrees → i ≠ root → 1 ≤ n) := by
  constructor
  · intro order h
    exact ⟨g.degreesIn order, Graph.inDegrees_eq h, (Graph.tally_eq h).symm,
      Graph.countsEdges_degreesIn h⟩
  · intro hg
    obtain ⟨order, h⟩ := Graph.preorder_of_valid hg
    obtain ⟨root, o, hroot, -⟩ := Graph.root_of_valid hg
    exact ⟨root, g.degreesIn order, hroot, Graph.inDegrees_eq h,
      Graph.root_mem_degreesIn hg hroot h, fun i n => Graph.degree_pos hroot h⟩

def circlingScene : Graph where
  objects := [.containerVisual {} [1, 1] [], .containerVisual {} [0] []]
  root := some 0
  bindings := Catalog.empty

def wovenScene : Graph where
  objects := [.containerVisual {} [1, 2, 1] [], .containerVisual {} [2] [],
    .containerVisual {} [] []]
  root := some 0
  bindings := Catalog.empty

theorem inDegrees_exact_scenes :
    (circlingScene.preorder = .ok [0, 1] ∧ circlingScene.tally [0, 1] = [(0, 1), (1, 2)]
        ∧ ∃ degrees, circlingScene.inDegrees = .ok degrees
          ∧ degrees = circlingScene.tally [0, 1] ∧ circlingScene.CountsEdges degrees)
      ∧ wovenScene.validate = .ok () ∧ wovenScene.inDegrees = .ok [(0, 0), (1, 2), (2, 2)]
      ∧ ∃ root degrees, wovenScene.root = some root ∧ wovenScene.inDegrees = .ok degrees
        ∧ (root, 0) ∈ degrees ∧ ∀ i n, (i, n) ∈ degrees → i ≠ root → 1 ≤ n := by
  have hwalk : circlingScene.preorder = .ok [0, 1] := by cbv
  have hvalid : wovenScene.validate = .ok () := by cbv
  exact ⟨⟨hwalk, by cbv, (inDegrees_exact circlingScene).1 _ hwalk⟩, hvalid, by cbv,
    (inDegrees_exact wovenScene).2 hvalid⟩

end Scenograph
