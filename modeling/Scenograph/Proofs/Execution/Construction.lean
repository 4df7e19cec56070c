import Scenograph.Proofs.Composition.Acyclic
import Scenograph.Proofs.Execution.Depth
import Scenograph.Proofs.Execution.Factory
import Scenograph.Proofs.Lowering.Totality

namespace Scenograph

def Field.start (f : Field) : Value :=
  match f.init with
  | some (.lit value) => .ofLiteral value
  | _ => .null

def Field.Plain (f : Field) : Prop :=
  f.init = none ∨ ∃ value, f.init = some (.lit value)

def startStore (fields : List Field) : Store :=
  fields.map fun f => (f.name, f.start)

theorem ClassUnit.initialise_plain {call : Caller} {fields : List Field}
    (h : ∀ f ∈ fields, f.Plain) (m : Machine) :
    ClassUnit.initialise call fields m = .ok { m with fields := m.fields ++ startStore fields } := by
  induction fields generalizing m with
  | nil => simp [ClassUnit.initialise, startStore]
  | cons f fields ih =>
      have hrest := ih fun f' hf' => h f' (List.mem_cons_of_mem _ hf')
      rcases h f (List.mem_cons_self ..) with hinit | ⟨value, hinit⟩
      · simp [ClassUnit.initialise, hinit, hrest, startStore, Field.start]
      · simp [ClassUnit.initialise, hinit, hrest, startStore, Field.start, Expr.eval]

theorem lookup_startStore_isSome {fields : List Field} {f : Field} (hf : f ∈ fields) :
    ((startStore fields).lookup f.name).isSome :=
  List.lookup_isSome_iff.2 ⟨(f.name, f.start), List.mem_map_of_mem hf, by simp⟩

theorem lookup_startStore_null {fields : List Field} {name : String}
    (hsome : ((startStore fields).lookup name).isSome)
    (hnull : ∀ f ∈ fields, f.name = name → f.start = .null) :
    (startStore fields).lookup name = some .null := by
  obtain ⟨v, hv⟩ := Option.isSome_iff_exists.1 hsome
  obtain ⟨l₁, l₂, hsplit, _⟩ := List.lookup_eq_some_iff.1 hv
  have hmem : (name, v) ∈ startStore fields := by
    rw [hsplit]
    simp
  obtain ⟨f, hf, heq⟩ := List.mem_map.1 hmem
  cases heq
  rw [hv, hnull f hf rfl]

section Start

variable {x : Parts} {t : Target} (hx : x.Of x.plan.graph t)

theorem mem_classFields {f : Field} (h : f ∈ x.plan.classFields x.usesTheme) :
    (f.name ∈ Plan.fixedFields ∧ f.init = none)
      ∨ ∃ b ∈ x.plan.graph.bindings.values, f.name = Plan.backingField b
        ∧ f.init = some (.lit (Plan.valueLiteral b.default)) := by
  rw [Plan.classFields] at h
  rcases List.mem_append.1 h with h | h
  · rcases List.mem_pair.1 h with rfl | rfl <;> exact .inl ⟨by simp [Plan.fixedFields], rfl⟩
  · split at h
    · rcases List.mem_cons.1 h with rfl | h
      · exact .inl ⟨by simp [Plan.fixedFields], rfl⟩
      · obtain ⟨b, hb, rfl⟩ := List.mem_map.1 h
        exact .inr ⟨b, hb, rfl, rfl⟩
    · cases h

include hx in
theorem plain_fields : ∀ f ∈ x.unit.fields, f.Plain := by
  intro f hf
  rcases List.mem_append.1 hf with hf | hf
  · rcases mem_classFields hf with ⟨_, hinit⟩ | ⟨b, _, _, hinit⟩
    · exact .inl hinit
    · exact .inr ⟨_, hinit⟩
  · obtain ⟨_, _, _, _, _, hinit⟩ := hx.mem_sharedFields hf
    exact .inl hinit

theorem lookup_backingField {b : Binding} (htheme : x.usesTheme = true)
    (hb : b ∈ x.plan.graph.bindings.values) :
    ((startStore x.unit.fields).lookup (Plan.backingField b)).isSome := by
  have hmem : (⟨Plan.backingField b, Plan.exposedType b.exposed,
      some (.lit (Plan.valueLiteral b.default))⟩ : Field) ∈ x.unit.fields := by
    apply List.mem_append_left
    rw [Plan.classFields, if_pos htheme]
    exact List.mem_append_right _ (List.mem_cons_of_mem _ (List.mem_map_of_mem hb))
  exact lookup_startStore_isSome hmem

include hx in
theorem lookup_cacheField {i : Nat} {name : String} (hi : i ∈ x.plan.shared)
    (hname : x.plan.nameOf i = .ok name) :
    (startStore x.unit.fields).lookup (Plan.cacheField name) = some .null := by
  obtain ⟨f, hf, hfield⟩ := hx.exists_sharedField hi hname
  rw [← hfield]
  refine lookup_startStore_null (lookup_startStore_isSome (List.mem_append_right _ hf)) ?_
  rw [hfield]
  intro f' hf' heq
  rcases List.mem_append.1 hf' with hf' | hf'
  · rcases mem_classFields hf' with ⟨hfixed, _⟩ | ⟨b, _, hbacking, _⟩
    · exact absurd heq.symm (hx.planned.cacheField_ne_fixed hname hfixed)
    · exact absurd (heq.symm.trans hbacking) (hx.planned.cacheField_ne_backingField hname b)
  · obtain ⟨_, _, _, _, _, hinit⟩ := hx.mem_sharedFields hf'
    rw [Field.start, hinit]

def Progress.none : Progress :=
  ⟨[], [], fun _ => 0⟩

include hx in
theorem sound_start {compositor : Value} (hc : compositor ≠ .null) :
    Sound x .none (Machine.view { fields := (startStore x.unit.fields).put "_c" compositor }) where
  ready := by
    have hfields : ∀ name, name ≠ "_c" →
        ((startStore x.unit.fields).put "_c" compositor).lookup name
          = (startStore x.unit.fields).lookup name := fun name => Store.lookup_put_of_ne
    refine ⟨⟨compositor, hc, Store.lookup_put_self rfl⟩, ?_, fun htheme => ?_, fun htheme b hb => ?_⟩
    · rw [Machine.view_fields, hfields _ (by decide)]
      rfl
    · refine ⟨.null, ?_, .inl rfl⟩
      rw [Machine.view_fields, hfields _ (by decide), Parts.unit, Plan.classFields, if_pos htheme]
      rfl
    · rw [Machine.view_fields, hfields _ (Plan.backingField_ne_compositor b)]
      exact lookup_backingField htheme hb
  made := rfl
  results := rfl
  links := by simp [Progress.none]
  owners := by simp [Machine.view, Machine.links]
  nodes := List.nodup_nil
  ids := List.nodup_nil
  fresh := by simp [Progress.none]
  members := by simp [Progress.none]
  idle := fun _ _ => rfl
  finished := by simp [Progress.none]
  followed := by
    intro i k e hk
    exact absurd hk (Nat.not_lt_zero k)
  empty := by
    intro i name hi hname _
    rw [Machine.view_fields, Store.lookup_put_of_ne (hx.planned.cacheField_ne_fixed hname (by decide))]
    exact lookup_cacheField hx hi hname
  kept := by simp [Progress.none]

include hx in
theorem construct_run {height : Nat → Nat}
    (hheight : ∀ i, ∀ e ∈ x.plan.graph.edgesOf i, height e.target < height i)
    {compositor : Value} (hc : compositor ≠ .null) {depth : Nat}
    (hdepth : height x.root + 3 ≤ depth) :
    ∃ a s m m', x.unit.construct depth [compositor] = .ok m'
      ∧ Returned x height .none x.root a s (Machine.view m)
      ∧ m'.view = { m.view with fields := m'.fields }
      ∧ m'.fields.lookup "_root" = some (.object a) := by
  have hstart := sound_start hx hc
  -- nothing has been started, so the factory of the root may be called
  have hwaits : Waits x height (height x.root + 1) .none _ :=
    ⟨hstart, fun _ _ _ => by simp [Progress.none], by simp [Progress.none]⟩
  obtain ⟨a, m, s, hcall, hreturned⟩ := givesObject hx hheight x.root hdepth x.rootFactory .none _
    hx.rootFactory hwaits (by simp [Progress.none])
  have hroot := hreturned.sound.ready.root
  rw [Machine.view_fields] at hroot
  refine ⟨a, s, m, { m with fields := m.fields.put "_root" (.object a) }, ?_, hreturned, rfl,
    Store.lookup_put_self hroot⟩
  have hfirst : ((startStore x.unit.fields).lookup "_c").isSome := rfl
  have hconstructor : x.unit.methods.find? (·.isConstructor)
      = some (x.plan.constructorMethod x.rootFactory) := rfl
  rw [ClassUnit.construct, ClassUnit.initialise_plain (plain_fields hx), ok_bind, hconstructor]
  simp [Method.run, Plan.constructorMethod, Tree.exec, Node.execAll, Node.exec, guardHolds,
    Statement.exec, Expr.eval, Expr.evalAll, Statement.assignTo, hfirst, hcall, hroot]

end Start

structure Realises (g : Graph) (p : Plan) (object : Nat → Nat) (m : Machine) : Prop where
  distinct : ∀ i ∈ p.order, ∀ j ∈ p.order, object i = object j → i = j
  made : m.made.Perm (p.order.filterMap fun i => g.objects[i]?.map fun o => (object i, o.kind))
  results : m.results.Perm (p.names.map fun y => (y.2, .object (object y.1)))
  owners : ∀ l ∈ m.links, ∃ i ∈ p.order, l.owner = object i
  links : ∀ i ∈ p.order, m.links.filter (·.owner == object i)
    = (g.wiresOf i).map fun w => ⟨object i, w.via, w.label, object w.target⟩

namespace Progress

def object (s : Progress) (i : Nat) : Nat :=
  (s.objects.lookup i).getD 0

theorem object_eq {s : Progress} (hnodes : (s.objects.map (·.1)).Nodup) {y : Nat × Nat}
    (hy : y ∈ s.objects) : s.object y.1 = y.2 := by
  rw [object, lookup_of_mem hnodes hy, Option.getD_some]

end Progress

theorem links_eq_of_matches {s : Progress} (hnodes : (s.objects.map (·.1)).Nodup) {a : Nat}
    {es : List Wire} {ls : List Link} (h : List.Forall₂ (Matches s a) es ls) :
    ls = es.map fun e => ⟨a, e.via, e.label, s.object e.target⟩ := by
  induction h with
  | nil => rfl
  | @cons e l es ls hl _ ih =>
      obtain ⟨howner, hvia, hlabel, htarget⟩ := hl
      have hobject : s.object e.target = l.target := Progress.object_eq hnodes htarget
      rw [ih, List.map_cons, hobject, ← howner, ← hvia, ← hlabel]

section Realised

variable {x : Parts} {t : Target} (hx : x.Of x.plan.graph t) {height : Nat → Nat} {s : Progress}
  {v : View} {a : Nat}

include hx in
theorem Returned.done_of_reachable (h : Returned x height .none x.root a s v) {i : Nat}
    (hi : i ∈ x.plan.order) : i ∈ s.done := by
  obtain ⟨root, hroot, hpath⟩ := hx.planned.mem_order.1 hi
  cases hx.root.symm.trans hroot
  induction hpath with
  | refl => exact h.done
  | @tail q j hq hlead ih =>
      obtain ⟨e, he, rfl⟩ := Graph.leads_iff.1 hlead
      obtain ⟨w, hw, rfl⟩ := Graph.exists_wire he
      obtain ⟨k, hk, hget⟩ := List.mem_iff_getElem.1 hw
      have hdone := ih (hx.planned.mem_order.2 ⟨x.root, hx.root, hq⟩)
      -- a node that is done is linked along all its edges, and their targets are done
      have hused := (h.sound.finished q hdone).2
      exact h.sound.followed q k w (hused ▸ hk) (List.getElem?_eq_some_iff.2 ⟨hk, hget⟩)

include hx in
theorem Returned.nodes_perm (h : Returned x height .none x.root a s v) :
    (s.objects.map (·.1)).Perm x.plan.order := by
  refine (List.perm_ext_iff_of_nodup h.sound.nodes hx.planned.nodup).2 fun i => ?_
  constructor
  · exact h.sound.members i
  · intro hi
    exact (h.sound.finished i (h.done_of_reachable hx hi)).1

include hx in
theorem Returned.objects_perm (h : Returned x height .none x.root a s v) :
    s.objects.Perm (x.plan.order.map fun i => (i, s.object i)) := by
  have hobjects : s.objects = (s.objects.map (·.1)).map fun i => (i, s.object i) := by
    rw [List.map_map]
    refine (List.map_id _).symm.trans (List.map_congr_left fun y hy => ?_)
    simp [Progress.object_eq h.sound.nodes hy]
  rw [hobjects]
  exact (h.nodes_perm hx).map _

include hx in
theorem Returned.object_mem (h : Returned x height .none x.root a s v) {i : Nat}
    (hi : i ∈ x.plan.order) : (i, s.object i) ∈ s.objects :=
  (h.objects_perm hx).symm.subset (List.mem_map_of_mem hi)

include hx in
theorem realises_of_returned {m m' : Machine} (h : Returned x height .none x.root a s m.view)
    (hview : m'.view = { m.view with fields := m'.fields }) :
    Realises x.plan.graph x.plan s.object m' := by
  have hmade : m'.made = m.made := congrArg View.made hview
  have hresults : m'.results = m.results := congrArg View.results hview
  have hlinks : m'.links = m.links := congrArg View.links hview
  exact {
    distinct := by
      intro i hi j hj heq
      have hpair := List.inj_on_of_nodup_map h.sound.ids (h.object_mem hx hi) (h.object_mem hx hj) heq
      exact congrArg Prod.fst hpair
    made := by
      have hperm := (h.objects_perm hx).filterMap fun y =>
        x.plan.graph.objects[y.1]?.map fun o => (y.2, o.kind)
      rw [List.filterMap_map] at hperm
      rw [hmade, ← Machine.view_made, h.sound.made]
      exact hperm
    results := by
      have hperm := (h.objects_perm hx).filterMap fun y =>
        (x.plan.names.lookup y.1).map fun name => (name, Value.object y.2)
      have hnames : (x.plan.names.map (·.1)).Nodup := hx.planned.ids ▸ hx.planned.nodup
      have hlookup : ∀ y ∈ x.plan.names, (x.plan.names.lookup y.1).map
          (fun name => (name, Value.object (s.object y.1))) = some (y.2, .object (s.object y.1)) := by
        intro y hy
        rw [lookup_of_mem hnames hy, Option.map_some]
      rw [← hx.planned.ids, List.map_map, List.filterMap_map] at hperm
      rw [hresults, ← Machine.view_results, h.sound.results]
      exact hperm.trans (.of_eq ((List.filterMap_congr hlookup).trans
        (congrFun List.filterMap_eq_map x.plan.names)))
    owners := by
      intro l hl
      rw [hlinks] at hl
      obtain ⟨y, hy, hyl⟩ := List.mem_map.1 (h.sound.owners l hl)
      refine ⟨y.1, h.sound.members y.1 (List.mem_map_of_mem hy), ?_⟩
      rw [Progress.object_eq h.sound.nodes hy, hyl]
    links := by
      intro i hi
      have hfinished := (h.sound.finished i (h.done_of_reachable hx hi)).2
      have hforall := h.sound.links (i, s.object i) (h.object_mem hx hi)
      rw [hfinished, List.take_length] at hforall
      rw [hlinks]
      exact links_eq_of_matches h.sound.nodes hforall }

end Realised

theorem construct_realises {g : Graph} {t : Target} {u : ClassUnit} (hu : g.lower t = .ok u)
    {compositor : Value} (hc : compositor ≠ .null) :
    ∃ p root object bound m, Plan.ofGraph t g = .ok p ∧ g.preorder = .ok p.order
      ∧ p.names.map (·.1) = p.order ∧ (p.names.map (·.2)).Nodup ∧ g.root = some root
      ∧ (∀ depth, bound ≤ depth → u.construct depth [compositor] = .ok m)
      ∧ Realises g p object m ∧ m.fields.lookup "_root" = some (.object (object root)) := by
  obtain ⟨x, hx, rfl⟩ := Graph.lower_parts hu
  have hgraph := hx.planned.graph
  subst hgraph
  obtain ⟨height, hheight⟩ := Graph.height_of_valid hx.planned.valid
  obtain ⟨a, s, m, m', hrun, hreturned, hview, hroot⟩ := construct_run hx hheight hc (Nat.le_refl _)
  have hobject : s.object x.root = a := Progress.object_eq hreturned.sound.nodes hreturned.object
  exact ⟨x.plan, x.root, s.object, height x.root + 3, m', hx.plan, hx.planned.order, hx.planned.ids,
    Plan.nameFactories_nodup hx.planned.names, hx.root,
    fun depth hdepth => ClassUnit.construct_deeper hdepth _ m' hrun,
    realises_of_returned hx hreturned hview, hobject ▸ hroot⟩

def sharedScene : Graph where
  objects := [.containerVisual {} [1, 1] [⟨"Opacity", 4⟩], .spriteVisual {} (some 2) [],
    .surfaceBrush 3, .imageSurface "image" "image.png",
    .expressionAnimation "brush.Opacity" [⟨"brush", .node 2⟩]]
  root := some 0
  bindings := Catalog.empty

def sharedTarget : Target where
  language := .csharp
  size := ⟨1, 1⟩
  nanoseconds := 100

theorem construct_realises_sharedScene :
    ∃ u, sharedScene.lower sharedTarget = .ok u ∧ Value.answer 0 ≠ .null
      ∧ ∃ p root object bound m, Plan.ofGraph sharedTarget sharedScene = .ok p
        ∧ sharedScene.preorder = .ok p.order ∧ p.names.map (·.1) = p.order
        ∧ (p.names.map (·.2)).Nodup ∧ sharedScene.root = some root
        ∧ (∀ depth, bound ≤ depth → u.construct depth [.answer 0] = .ok m)
        ∧ Realises sharedScene p object m
        ∧ sharedScene.wiresOf 0 = [⟨⟨"Children", 1⟩, "InsertAtTop"⟩, ⟨⟨"Children", 1⟩, "InsertAtTop"⟩,
          ⟨⟨"Opacity", 4⟩, "StartAnimation"⟩]
        ∧ sharedScene.wiresOf 4 = [⟨⟨"brush", 2⟩, "SetReferenceParameter"⟩]
        ∧ m.fields.lookup "_root" = some (.object (object root)) := by
  have hvalid : sharedScene.validate = .ok () := Graph.validate_of_checks rfl rfl (by cbv)
  obtain ⟨u, hu⟩ := Graph.lower_of_unbound (t := sharedTarget) hvalid rfl ⟨1, rfl⟩
  have hcompositor : Value.answer 0 ≠ .null := by decide
  obtain ⟨p, root, object, bound, m, hplan, horder, hids, hnames, hroot, hrun, hrealises, hfield⟩ :=
    construct_realises hu hcompositor
  exact ⟨u, hu, hcompositor, p, root, object, bound, m, hplan, horder, hids, hnames, hroot, hrun,
    hrealises, rfl, rfl, hfield⟩

end Scenograph
