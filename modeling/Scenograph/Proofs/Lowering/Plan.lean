import Scenograph.Proofs.Composition.Validity
import Scenograph.Proofs.Lowering.Names

namespace Scenograph

theorem lookup_of_mem {α β : Type} [BEq α] [LawfulBEq α] {l : List (α × β)}
    (hnodup : (l.map (·.1)).Nodup) {y : α × β} (hy : y ∈ l) : l.lookup y.1 = some y.2 := by
  induction l with
  | nil => cases hy
  | cons z l ih =>
      obtain ⟨hnew, hrest⟩ := List.nodup_cons.1 hnodup
      rcases List.mem_cons.1 hy with rfl | hy
      · exact List.lookup_cons_self
      · have hne : (y.1 == z.1) = false := by
          simpa using fun heq : y.1 = z.1 => hnew (List.mem_map.2 ⟨y, hy, heq⟩)
        rw [List.lookup_cons, hne]
        exact ih hrest hy

namespace Plan

variable {g : Graph} {t : Target} {p : Plan}

def nameFactories (g : Graph) (earlier : List ObjectKind) :
    List Nat → Except Fault (List (Nat × String))
  | [] => .ok []
  | id :: rest => do
      let kind := (← g.get id).kind
      let name := kind.name ++ "_" ++ shown (earlier.count kind)
      return (id, name) :: (← nameFactories g (kind :: earlier) rest)

namespace Naming

/-- The counters of the loop hold, for each kind, how many of the kind came before. -/
theorem foldlM_add {s : Naming} {earlier : List ObjectKind}
    (hs : ∀ kind, s.counts kind = earlier.count kind) (order : List Nat) :
    (order.foldlM (add g) s).map (·.names)
      = (nameFactories g earlier order).map (s.names ++ ·) := by
  induction order generalizing s earlier with
  | nil => simp [nameFactories, Except.map]
  | cons id rest ih =>
      rw [List.foldlM_cons, add, nameFactories]
      cases g.get id with
      | error fault => rfl
      | ok o =>
          simp only [ok_bind, pure_eq_ok, hs]
          have hcounts : ∀ kind, (if kind = o.kind then earlier.count kind + 1 else earlier.count kind)
              = (o.kind :: earlier).count kind := by
            intro kind
            by_cases hkind : kind = o.kind
            · simp [hkind]
            · simp [hkind, eq_comm]
          rw [ih hcounts]
          cases nameFactories g (o.kind :: earlier) rest with
          | error fault => rfl
          | ok names => simp [Except.map]

theorem foldlM_add_nil (g : Graph) (order : List Nat) :
    (order.foldlM (add g) {}).map (·.names) = nameFactories g [] order := by
  have hcounts : ∀ kind, ({} : Naming).counts kind = List.count kind [] := fun _ => rfl
  rw [foldlM_add hcounts]
  cases nameFactories g [] order <;> rfl

end Naming

theorem nameFactories_cons {earlier : List ObjectKind} {i : Nat} {rest : List Nat}
    {names : List (Nat × String)} (h : nameFactories g earlier (i :: rest) = .ok names) :
    ∃ o tail, g.objects[i]? = some o ∧ nameFactories g (o.kind :: earlier) rest = .ok tail
      ∧ names = (i, factoryName o.kind (earlier.count o.kind)) :: tail := by
  rw [nameFactories] at h
  obtain ⟨o, ho, h⟩ := bind_eq_ok.1 h
  obtain ⟨tail, htail, h⟩ := bind_eq_ok.1 h
  cases h
  exact ⟨o, tail, Graph.get_eq_ok.1 ho, htail, rfl⟩

theorem nameFactories_ids {earlier : List ObjectKind} {order : List Nat}
    {names : List (Nat × String)} (h : nameFactories g earlier order = .ok names) :
    names.map (·.1) = order := by
  induction order generalizing earlier names with
  | nil =>
      cases h
      rfl
  | cons i rest ih =>
      obtain ⟨o, tail, _, htail, rfl⟩ := nameFactories_cons h
      simp [ih htail]

theorem nameFactories_name {earlier : List ObjectKind} {order : List Nat}
    {names : List (Nat × String)} (h : nameFactories g earlier order = .ok names) :
    ∀ x ∈ names, ∃ o n, g.objects[x.1]? = some o ∧ x.2 = factoryName o.kind n
      ∧ earlier.count o.kind ≤ n := by
  induction order generalizing earlier names with
  | nil =>
      cases h
      simp
  | cons i rest ih =>
      obtain ⟨o, tail, ho, htail, rfl⟩ := nameFactories_cons h
      intro x hx
      rcases List.mem_cons.1 hx with rfl | hx
      · exact ⟨o, _, ho, rfl, Nat.le_refl _⟩
      · obtain ⟨o', n, ho', hname, hn⟩ := ih htail x hx
        refine ⟨o', n, ho', hname, Nat.le_trans ?_ hn⟩
        rw [List.count_cons]
        omega

theorem nameFactories_nodup {earlier : List ObjectKind} {order : List Nat}
    {names : List (Nat × String)} (h : nameFactories g earlier order = .ok names) :
    (names.map (·.2)).Nodup := by
  induction order generalizing earlier names with
  | nil =>
      cases h
      exact List.nodup_nil
  | cons i rest ih =>
      obtain ⟨o, tail, ho, htail, rfl⟩ := nameFactories_cons h
      refine List.nodup_cons.2 ⟨fun hmem => ?_, ih htail⟩
      obtain ⟨x, hx, hname⟩ := List.mem_map.1 hmem
      obtain ⟨o', n, _, hname', hn⟩ := nameFactories_name htail x hx
      obtain ⟨hkind, hnum⟩ := factoryName_injective (hname'.symm.trans hname)
      rw [hkind, List.count_cons_self] at hn
      omega

theorem nameOf_eq_ok {i : Nat} {name : String} :
    p.nameOf i = .ok name ↔ p.names.lookup i = some name := by
  cases h : p.names.lookup i <;> simp [nameOf, h]

theorem mem_names_of_nameOf {i : Nat} {name : String} (h : p.nameOf i = .ok name) :
    (i, name) ∈ p.names := by
  obtain ⟨l₁, l₂, hsplit, _⟩ := List.lookup_eq_some_iff.1 (nameOf_eq_ok.1 h)
  simp [hsplit]

theorem one_lt_count_of_getElem? {l : List Nat} {j k a : Nat} (hj : l[j]? = some a)
    (hk : l[k]? = some a) (hlt : j < k) : 1 < l.count a := by
  have hfirst : a ∈ l.take k := by
    apply List.mem_of_getElem? (i := j)
    rw [List.getElem?_take_of_lt hlt, hj]
  have hsecond : a ∈ l.drop k := by
    apply List.mem_of_getElem? (i := 0)
    rw [List.getElem?_drop, Nat.add_zero, hk]
  have hcount : l.count a = (l.take k).count a + (l.drop k).count a := by
    rw [← List.count_append, List.take_append_drop]
  have := List.count_pos_iff.2 hfirst
  have := List.count_pos_iff.2 hsecond
  omega

theorem one_lt_count_flatMap {l : List Nat} {f : Nat → List Nat} {i j a : Nat} (hi : i ∈ l)
    (hj : j ∈ l) (hne : i ≠ j) (hia : a ∈ f i) (hja : a ∈ f j) : 1 < (l.flatMap f).count a := by
  obtain ⟨l₁, l₂, rfl⟩ := List.append_of_mem hi
  have hrest : a ∈ l₁.flatMap f ++ l₂.flatMap f := by
    rw [← List.flatMap_append]
    refine List.mem_flatMap.2 ⟨j, ?_, hja⟩
    simpa [hne.symm] using hj
  have := List.count_pos_iff.2 hia
  have := List.count_pos_iff.2 hrest
  simp only [List.flatMap_append, List.flatMap_cons, List.count_append] at *
  omega

structure Planned (t : Target) (g : Graph) (p : Plan) : Prop where
  target : p.target = t
  graph : p.graph = g
  valid : g.validate = .ok ()
  order : g.preorder = .ok p.order
  names : nameFactories g [] p.order = .ok p.names
  shared : ∀ i, i ∈ p.shared ↔ i ∈ p.order ∧ 1 < (p.order.flatMap g.targetsOf).count i

theorem ofGraph_planned (h : ofGraph t g = .ok p) : Planned t g p := by
  rw [ofGraph] at h
  obtain ⟨_, hvalid, h⟩ := bind_eq_ok.1 h
  obtain ⟨order, horder, h⟩ := bind_eq_ok.1 h
  obtain ⟨naming, hnaming, h⟩ := bind_eq_ok.1 h
  obtain ⟨degrees, hdegrees, h⟩ := bind_eq_ok.1 h
  cases h
  have hnames : nameFactories g [] order = .ok naming.names := by
    rw [← Naming.foldlM_add_nil, hnaming]
    rfl
  refine ⟨rfl, rfl, hvalid, horder, hnames, fun i => ?_⟩
  simp only [Graph.inDegrees, horder, ok_bind, pure_eq_ok, Except.ok.injEq] at hdegrees
  subst hdegrees
  simp only [List.mem_map, List.mem_filter, List.mem_mergeSort, decide_eq_true_eq]
  constructor
  · rintro ⟨_, ⟨⟨j, hj, rfl⟩, hcount⟩, rfl⟩
    exact ⟨hj, hcount⟩
  · rintro ⟨hi, hcount⟩
    exact ⟨_, ⟨⟨i, hi, rfl⟩, hcount⟩, rfl⟩

theorem ofGraph_eq {order : List Nat} {names : List (Nat × String)} (hvalid : g.validate = .ok ())
    (horder : g.preorder = .ok order) (hsorted : order.Pairwise (· ≤ ·))
    (hnames : nameFactories g [] order = .ok names) :
    ofGraph t g = .ok ⟨t, g, order, names,
      order.filter fun i => decide (1 < (order.flatMap g.targetsOf).count i)⟩ := by
  have hnaming := Naming.foldlM_add_nil g order
  rw [hnames] at hnaming
  cases hnamed : order.foldlM (Naming.add g) {} with
  | error fault =>
      rw [hnamed] at hnaming
      cases hnaming
  | ok naming =>
      rw [hnamed] at hnaming
      cases hnaming
      have hdegrees : g.inDegrees
          = .ok (order.map fun i => (i, (order.flatMap g.targetsOf).count i)) := by
        have hpairs : order.Pairwise fun a b => decide (a ≤ b) = true := by simpa using hsorted
        rw [Graph.inDegrees, horder, ok_bind, List.mergeSort_of_pairwise hpairs, pure_eq_ok]
      simp [ofGraph, hvalid, horder, hnamed, hdegrees, List.filter_map, Function.comp_def]

theorem ofGraph_of_valid (t : Target) (hg : g.validate = .ok ()) : ∃ p, ofGraph t g = .ok p := by
  obtain ⟨order, horder⟩ := Graph.preorder_of_valid hg
  have hnaming : ∃ naming, order.foldlM (Naming.add g) {} = .ok naming := by
    refine foldlM_ok (fun s i hi => ?_) _
    obtain ⟨o, ho⟩ := Graph.object_of_mem_preorder horder hi
    exact bind_ok ⟨o, Graph.get_eq_ok.2 ho⟩ fun _ _ => ⟨_, rfl⟩
  obtain ⟨naming, hnaming⟩ := hnaming
  simp [ofGraph, hg, horder, hnaming, Graph.inDegrees]

namespace Planned

variable (hp : Planned t g p)

include hp

theorem ids : p.names.map (·.1) = p.order :=
  nameFactories_ids hp.names

theorem nodup : p.order.Nodup :=
  Graph.preorder_nodup hp.order

theorem mem_order {i : Nat} : i ∈ p.order ↔ g.Reachable i :=
  Graph.mem_preorder hp.order

theorem object {i : Nat} (hi : i ∈ p.order) : ∃ o, g.objects[i]? = some o :=
  Graph.object_of_mem_preorder hp.order hi

theorem target_mem {i : Nat} (hi : i ∈ p.order) {e : Edge} (he : e ∈ g.edgesOf i) :
    e.target ∈ p.order := by
  rw [hp.mem_order] at hi ⊢
  exact hi.step (Graph.leads_iff.2 ⟨e, he, rfl⟩)

theorem nameOf_injective {i j : Nat} {name : String} (hi : p.nameOf i = .ok name)
    (hj : p.nameOf j = .ok name) : i = j := by
  have heq := List.inj_on_of_nodup_map (nameFactories_nodup hp.names)
    (mem_names_of_nameOf hi) (mem_names_of_nameOf hj) rfl
  exact congrArg Prod.fst heq

theorem nameOf_ok {i : Nat} (hi : i ∈ p.order) : ∃ name, p.nameOf i = .ok name := by
  rw [← hp.ids] at hi
  obtain ⟨x, hx, rfl⟩ := List.mem_map.1 hi
  have hsome : (p.names.lookup x.1).isSome := List.lookup_isSome_iff.2 ⟨x, hx, by simp⟩
  obtain ⟨name, hname⟩ := Option.isSome_iff_exists.1 hsome
  exact ⟨name, nameOf_eq_ok.2 hname⟩

theorem name_eq {i : Nat} {o : CompositionObject} {name : String} (ho : g.objects[i]? = some o)
    (h : p.nameOf i = .ok name) : ∃ n, name = factoryName o.kind n := by
  obtain ⟨o', n, ho', hname, _⟩ := nameFactories_name hp.names _ (mem_names_of_nameOf h)
  rw [ho] at ho'
  cases ho'
  exact ⟨n, hname⟩

theorem mem_order_of_nameOf {i : Nat} {name : String} (h : p.nameOf i = .ok name) :
    i ∈ p.order := by
  rw [← hp.ids]
  exact List.mem_map_of_mem (mem_names_of_nameOf h)

theorem exists_name_eq {i : Nat} {name : String} (h : p.nameOf i = .ok name) :
    ∃ kind n, name = factoryName kind n := by
  obtain ⟨o, ho⟩ := hp.object (hp.mem_order_of_nameOf h)
  obtain ⟨n, hn⟩ := hp.name_eq ho h
  exact ⟨o.kind, n, hn⟩

theorem cacheField_ne_fixed {i : Nat} {name field : String} (h : p.nameOf i = .ok name)
    (hfield : field ∈ fixedFields) : cacheField name ≠ field := by
  obtain ⟨kind, n, rfl⟩ := hp.exists_name_eq h
  rintro rfl
  exact cacheField_not_fixed kind n hfield

theorem cacheField_ne_backingField {i : Nat} {name : String} (h : p.nameOf i = .ok name)
    (b : Binding) : cacheField name ≠ backingField b := by
  obtain ⟨kind, n, rfl⟩ := hp.exists_name_eq h
  exact cacheField_ne_backing kind n b

theorem eq_of_cacheField_eq {i j : Nat} {name other : String} (hi : p.nameOf i = .ok name)
    (hj : p.nameOf j = .ok other) (h : cacheField name = cacheField other) : i = j := by
  obtain ⟨kind, n, rfl⟩ := hp.exists_name_eq hi
  obtain ⟨kind', n', rfl⟩ := hp.exists_name_eq hj
  obtain ⟨rfl, rfl⟩ := cacheField_injective h
  exact hp.nameOf_injective hi hj

theorem shared_of_edges {i j k l : Nat} {e f : Edge} (hi : i ∈ p.order) (hj : j ∈ p.order)
    (he : (g.edgesOf i)[k]? = some e) (hf : (g.edgesOf j)[l]? = some f)
    (htarget : e.target = f.target) (hne : i = j → k < l) : f.target ∈ p.shared := by
  rw [hp.shared]
  have hk : (g.targetsOf i)[k]? = some f.target := by simp [Graph.targetsOf, he, htarget]
  have hl : (g.targetsOf j)[l]? = some f.target := by simp [Graph.targetsOf, hf]
  refine ⟨hp.target_mem hj (List.mem_of_getElem? hf), ?_⟩
  by_cases hij : i = j
  · subst hij
    have hsub : (g.targetsOf i).Sublist (p.order.flatMap g.targetsOf) :=
      List.sublist_flatten_of_mem (List.mem_map_of_mem hi)
    exact Nat.lt_of_lt_of_le (one_lt_count_of_getElem? hk hl (hne rfl)) (hsub.count_le _)
  · exact one_lt_count_flatMap hi hj hij (List.mem_of_getElem? hk) (List.mem_of_getElem? hl)

end Planned

end Plan

end Scenograph
