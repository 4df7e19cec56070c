import Scenograph.Proofs.Execution.Progress

namespace Scenograph

def Progress.Called (s : Progress) (g : Graph) (j : Nat) : Prop :=
  ∃ i k e, k < s.used i ∧ (g.wiresOf i)[k]? = some e ∧ e.target = j

def Untouched (height : Nat → Nat) (bound : Nat) (s : Progress) : Prop :=
  ∀ q, height q < bound → q ∉ s.done → q ∉ s.objects.map (·.1)

/-- What happens while only the nodes of `active`, and others below the bound, are worked on. -/
structure Grows (height : Nat → Nat) (bound : Nat) (active : List Nat) (s s' : Progress) : Prop where
  objects : s.objects ⊆ s'.objects
  done : s.done ⊆ s'.done
  closed : ∀ q ∈ s'.done, q ∈ s.done ∨ height q < bound
  made : ∀ y ∈ s'.objects, y ∈ s.objects ∨ y.1 ∈ s'.done ∨ y.1 ∈ active
  same : ∀ q, q ∉ s'.done → q ∉ active → s'.used q = s.used q

section Growth

variable {height : Nat → Nat} {bound bound' i a : Nat} {active : List Nat} {s s' s'' : Progress}

theorem Grows.refl (s : Progress) : Grows height bound active s s :=
  ⟨fun _ => id, fun _ => id, fun _ => .inl, fun _ => .inl, fun _ _ _ => rfl⟩

theorem Grows.trans (h : Grows height bound active s s') (h' : Grows height bound' [] s' s'')
    (hle : bound' ≤ bound) : Grows height bound active s s'' where
  objects := fun _ hy => h'.objects (h.objects hy)
  done := fun _ hq => h'.done (h.done hq)
  closed := by
    intro q hq
    rcases h'.closed q hq with hq | hq
    · exact h.closed q hq
    · exact .inr (Nat.lt_of_lt_of_le hq hle)
  made := by
    intro y hy
    rcases h'.made y hy with hy | hy | hy
    · rcases h.made y hy with hy | hy | hy
      · exact .inl hy
      · exact .inr (.inl (h'.done hy))
      · exact .inr (.inr hy)
    · exact .inr (.inl hy)
    · cases hy
  same := by
    intro q hq hactive
    have hq' : q ∉ s'.done := fun hmem => hq (h'.done hmem)
    exact (h'.same q hq (by simp)).trans (h.same q hq' hactive)

theorem Grows.make (h : Grows height bound active s s') (hi : i ∈ active) :
    Grows height bound active s (s'.make i a) where
  objects := fun _ hy => List.mem_append_left _ (h.objects hy)
  done := h.done
  closed := h.closed
  made := by
    intro y hy
    rcases List.mem_append.1 hy with hy | hy
    · exact h.made y hy
    · cases List.mem_singleton.1 hy
      exact .inr (.inr hi)
  same := h.same

theorem Grows.link (h : Grows height bound active s s') (hi : i ∈ active) :
    Grows height bound active s (s'.link i) where
  objects := h.objects
  done := h.done
  closed := h.closed
  made := h.made
  same := by
    intro q hq hactive
    have hqi : q ≠ i := fun heq => hactive (heq ▸ hi)
    rw [Progress.link_used_of_ne hqi]
    exact h.same q hq hactive

theorem Grows.finish (h : Grows height (height i) [i] s s') :
    Grows height (height i + 1) [] s (s'.finish i) where
  objects := h.objects
  done := fun _ hq => List.mem_cons_of_mem _ (h.done hq)
  closed := by
    intro q hq
    rcases List.mem_cons.1 hq with rfl | hq
    · exact .inr (Nat.lt_succ_self _)
    · exact (h.closed q hq).imp_right Nat.lt_succ_of_lt
  made := by
    intro y hy
    rcases h.made y hy with hy | hy | hy
    · exact .inl hy
    · exact .inr (.inl (List.mem_cons_of_mem _ hy))
    · exact .inr (.inl (List.mem_singleton.1 hy ▸ List.mem_cons_self ..))
  same := by
    intro q hq _
    have hqi : q ∉ [i] := fun hmem => hq (List.mem_singleton.1 hmem ▸ List.mem_cons_self ..)
    exact h.same q (fun hmem => hq (List.mem_cons_of_mem _ hmem)) hqi

theorem Untouched.grows (h : Untouched height bound s) (hs : Grows height bound' [i] s s')
    (hle : bound' ≤ bound) (hi : bound' ≤ height i) : Untouched height bound' s' := by
  intro q hq hdone hmem
  obtain ⟨y, hy, rfl⟩ := List.mem_map.1 hmem
  rcases hs.made y hy with hy | hy | hy
  · exact h y.1 (Nat.lt_of_lt_of_le hq hle) (fun hmem => hdone (hs.done hmem))
      (List.mem_map_of_mem hy)
  · exact hdone hy
  · rw [List.mem_singleton.1 hy] at hq
    omega

theorem Progress.Called.link {g : Graph} {j : Nat} (h : s.Called g j) : (s.link i).Called g j := by
  obtain ⟨q, k, e, hk, he, htarget⟩ := h
  refine ⟨q, k, e, ?_, he, htarget⟩
  by_cases hqi : q = i
  · subst hqi
    rw [Progress.link_used_self]
    omega
  · rwa [Progress.link_used_of_ne hqi]

end Growth

structure Waits (x : Parts) (height : Nat → Nat) (bound : Nat) (s : Progress) (v : View) : Prop where
  sound : Sound x s v
  untouched : Untouched height bound s
  called : ∀ j ∈ s.done, s.Called x.plan.graph j

structure Inside (x : Parts) (height : Nat → Nat) (s : Progress) (i a k : Nat) (s' : Progress)
    (v : View) : Prop where
  sound : Sound x s' v
  object : (i, a) ∈ s'.objects
  used : s'.used i = k
  grows : Grows height (height i) [i] s s'
  called : ∀ j ∈ s'.done, s'.Called x.plan.graph j

structure Returned (x : Parts) (height : Nat → Nat) (s : Progress) (i a : Nat) (s' : Progress)
    (v : View) : Prop where
  sound : Sound x s' v
  object : (i, a) ∈ s'.objects
  done : i ∈ s'.done
  grows : Grows height (height i + 1) [] s s'
  called : ∀ j ∈ s'.done, j = i ∨ s'.Called x.plan.graph j

/-- A node is called again only if it is shared; its factory then gives its object. -/
def GivesObject (x : Parts) (height : Nat → Nat) (depth i : Nat) : Prop :=
  ∀ name s m, x.plan.nameOf i = .ok name → Waits x height (height i + 1) s (Machine.view m) →
    (i ∈ s.done → i ∈ x.plan.shared) →
    ∃ a m' s', x.unit.invoke depth name [] m = .ok (.object a, m')
      ∧ Returned x height s i a s' (Machine.view m')

def EdgesGive (x : Parts) (height : Nat → Nat) (depth i : Nat) : Prop :=
  ∀ e ∈ x.plan.graph.wiresOf i,
    height e.target < height i ∧ GivesObject x height depth e.target

def MakesNode (x : Parts) (height : Nat → Nat) (depth : Nat) (s : Progress) (i : Nat)
    (name : String) (body : List Statement) (m : Machine) : Prop :=
  ∃ a s' locals m', Inside x height s i a (x.plan.graph.wiresOf i).length s' (Machine.view m')
    ∧ locals.NoFields ∧ HasResult a locals
    ∧ ∀ rest, Node.execAll (x.unit.invoke depth) name (body.map .stmt ++ rest) [] m
      = Node.execAll (x.unit.invoke depth) name rest locals m'

section Calls

variable {x : Parts} {t : Target} (hx : x.Of x.plan.graph t) {height : Nat → Nat}
  {s s' s'' : Progress} {v v' : View} {i a b k depth next : Nat} {e : Wire} {name : String}

include hx in
theorem shared_of_called (hs : Sound x s v) (hi : i ∈ x.plan.order)
    (he : (x.plan.graph.wiresOf i)[s.used i]? = some e) (hcalled : s.Called x.plan.graph e.target) :
    e.target ∈ x.plan.shared := by
  obtain ⟨q, l, f, hl, hf, htarget⟩ := hcalled
  have hq : q ∈ s.objects.map (·.1) := by
    by_contra hmem
    rw [hs.idle q hmem] at hl
    omega
  exact hx.planned.shared_of_edges (hs.members q hq) hi (Graph.edge_of_wire hf)
    (Graph.edge_of_wire he) htarget fun heq => heq ▸ hl

theorem Inside.open (h : Inside x height s i a k s' v) (hopen : i ∉ s.done) : i ∉ s'.done := by
  intro hmem
  rcases h.grows.closed i hmem with hmem | hlt
  · exact hopen hmem
  · omega

theorem Inside.waits (h : Inside x height s i a k s' v) (hs : Untouched height (height i + 1) s)
    (hlt : height e.target < height i) : Waits x height (height e.target + 1) s' v where
  sound := h.sound
  untouched := by
    have hall := hs.grows h.grows (Nat.le_succ _) (Nat.le_refl _)
    exact fun q hq => hall q (Nat.lt_of_lt_of_le hq hlt)
  called := h.called

theorem Inside.link (h : Inside x height s i a k s' v) (hopen : i ∉ s.done)
    (he : (x.plan.graph.wiresOf i)[k]? = some e) (hlt : height e.target < height i)
    (hcall : Returned x height s' e.target b s'' v') (hnext : v'.next ≤ next) :
    Inside x height s i a (k + 1) (s''.link i)
      { v' with next, links := v'.links ++ [⟨a, e.via, e.label, b⟩] } := by
  -- only nodes as low as the target were finished meanwhile
  have hopen' : i ∉ s''.done := by
    intro hmem
    rcases hcall.grows.closed i hmem with hmem | hle
    · exact h.open hopen hmem
    · omega
  have hused : s''.used i = k := (hcall.grows.same i hopen' (by simp)).trans h.used
  have hobject := hcall.grows.objects h.object
  exact {
    sound := hcall.sound.link hobject (hused ▸ he) hcall.done hcall.object hnext
    object := hobject
    used := by rw [Progress.link_used_self, hused]
    grows := (h.grows.trans hcall.grows hlt).link (List.mem_singleton_self i)
    called := by
      intro j hj
      rcases hcall.called j hj with rfl | hj
      · refine ⟨i, k, e, ?_, he, rfl⟩
        rw [Progress.link_used_self]
        omega
      · exact hj.link }

include hx in
theorem wired_inside (hi : i ∈ x.plan.order) (hopen : i ∉ s.done)
    (hs : Untouched height (height i + 1) s)
    (hedges : EdgesGive x height depth i) :
    Wired x depth a (x.plan.graph.wiresOf i) fun k v => ∃ s', Inside x height s i a k s' v where
  ready := by
    rintro k m ⟨s', h⟩
    exact h.sound.ready
  quiet := by
    rintro k m m' ⟨s', h⟩ hq
    exact ⟨s', { h with sound := h.sound.quiet hx hq }⟩
  call := by
    rintro k e he m name ⟨s', h⟩ hname
    obtain ⟨hlt, hgives⟩ := hedges e (List.mem_of_getElem? he)
    -- the target was called along an earlier edge, so this one makes it shared
    have hshared : e.target ∈ s'.done → e.target ∈ x.plan.shared := fun hdone =>
      shared_of_called hx h.sound hi (h.used ▸ he) (h.called e.target hdone)
    obtain ⟨b, m', s'', hcall, hreturned⟩ := hgives name s' m hname (h.waits hs hlt) hshared
    exact ⟨b, m', hcall, fun next hnext => ⟨_, h.link hopen he hlt hreturned hnext⟩⟩

end Calls

section Bodies

variable {x : Parts} {t : Target} (hx : x.Of x.plan.graph t) {height : Nat → Nat} {s : Progress}
  {i a depth next : Nat} {name : String} {o : CompositionObject} {body : List Statement}
  {m : Machine}

theorem Inside.begin {v : View} (h : Waits x height (height i + 1) s v) (hopen : i ∉ s.done)
    (hi : i ∈ x.plan.order) (ho : x.plan.graph.objects[i]? = some o)
    (hname : x.plan.nameOf i = .ok name) (ha : v.next ≤ a) (hnext : a < next) :
    Inside x height s i a 0 (s.make i a)
      { v with
        next
        made := v.made ++ [(a, o.kind)]
        results := v.results ++ [(name, .object a)] } := by
  have hnew := h.untouched i (Nat.lt_succ_self _) hopen
  exact {
    sound := h.sound.make hi hnew ho hname ha hnext
    object := List.mem_append_right _ (List.mem_singleton_self _)
    used := h.sound.idle i hnew
    grows := (Grows.refl s).make (List.mem_singleton_self i)
    called := h.called }

theorem Machine.view_ask_result (m : Machine) (name : String) {r : Request} {kind : ObjectKind}
    (hkind : r.kind? = some kind) :
    ((m.ask r).2.note (.declared name "result" (.object m.next))).view =
      { m.view with
        next := m.next + 1
        made := m.made ++ [(m.next, kind)]
        results := m.results ++ [(name, .object m.next)]
        links := m.links ++ (r.link? m.next).toList } := by
  have hask := Machine.view_ask m r
  have hresults : (m.ask r).2.results = m.results := congrArg View.results hask
  rw [Machine.view_note, hask, hresults]
  simp [hkind]

theorem exec_declareResult (name : String) (type : TypeRef) {call : Caller} {locals : Store}
    {m' : Machine} {r : Request} {kind : ObjectKind} {value : Expr} (hkind : r.kind? = some kind)
    (heval : value.eval call locals m = .ok (m'.ask r)) :
    Node.exec call name (.stmt (Plan.declareResult type value)) locals m
      = .ok ⟨none, ("result", .object m'.next) :: locals,
          (m'.ask r).2.note (.declared name "result" (.object m'.next))⟩ := by
  have hreply : r.reply m'.next = .object m'.next := by simp [Request.reply, hkind]
  simp [Node.exec, Plan.declareResult, Statement.exec, heval, hreply]

include hx in
theorem Builds.run (h : Builds x name o body) (hdepth : 2 ≤ depth)
    (hs : Waits x height (height i + 1) s m.view) (hopen : i ∉ s.done) (hi : i ∈ x.plan.order)
    (ho : x.plan.graph.objects[i]? = some o) (hname : x.plan.nameOf i = .ok name)
    (hedges : EdgesGive x height depth i) :
    MakesNode x height depth s i name body m := by
  obtain ⟨before, type, value, after, P, rfl, hbefore, hcreate, hafter⟩ := h
  -- what comes before the object is quiet, then the object is made, then it is linked
  obtain ⟨locals₁, m₁, hlocals₁, hP, hq₁, hrun₁⟩ :=
    hbefore depth hdepth [] m (fun _ _ => rfl) trivial hs.sound.ready
  obtain ⟨m₂, r, hq₂, hkind, hlink, heval⟩ :=
    hcreate depth hdepth locals₁ m₁ hlocals₁ hP (hs.sound.ready.quiet hq₁)
  have hs₂ : Waits x height (height i + 1) s m₂.view :=
    { hs with sound := hs.sound.quiet hx (hq₁.trans hq₂) }
  have hexec := exec_declareResult name type hkind heval
  have hmade := Inside.begin hs₂ hopen hi ho hname (Nat.le_refl m₂.next) (Nat.lt_succ_self _)
  have hview := Machine.view_ask_result m₂ name hkind
  have hedge : x.plan.graph.wiresOf i = o.wires := Graph.wiresOf_some ho
  obtain ⟨locals₃, m₃, hlocals₃, hresult, ⟨s', hinside⟩, hrun₃⟩ :=
    hafter m₂.next depth hdepth _ (hedge ▸ wired_inside hx hi hopen hs.untouched hedges)
      (("result", .object m₂.next) :: locals₁) _ (hlocals₁.declare (by decide)) rfl
      ⟨_, by rw [hview, hlink]; simpa using hmade⟩
  refine ⟨m₂.next, s', locals₃, m₃, hedge ▸ hinside, hlocals₃, hresult, fun rest => ?_⟩
  rw [List.map_append, List.append_assoc, hrun₁, List.map_cons, List.cons_append,
    Node.execAll_cons_none hexec, hrun₃]

theorem Inside.single {e : Wire} {b : Nat} {s' : Progress} {v v' : View}
    (h : Waits x height (height i + 1) s v) (hopen : i ∉ s.done) (hi : i ∈ x.plan.order)
    (ho : x.plan.graph.objects[i]? = some o) (hname : x.plan.nameOf i = .ok name)
    (he : x.plan.graph.wiresOf i = [e]) (hlt : height e.target < height i)
    (hcall : Returned x height s e.target b s' v') (ha : v'.next ≤ a) (hnext : a < next) :
    Inside x height s i a 1 ((s'.make i a).link i)
      { v' with
        next
        made := v'.made ++ [(a, o.kind)]
        results := v'.results ++ [(name, .object a)]
        links := v'.links ++ [⟨a, e.via, e.label, b⟩] } := by
  -- the surface is made first, and none of what it needs is as high as the brush
  have hnew : i ∉ s'.objects.map (·.1) := by
    intro hmem
    obtain ⟨y, hy, rfl⟩ := List.mem_map.1 hmem
    rcases hcall.grows.made y hy with hy | hy | hy
    · exact h.untouched y.1 (Nat.lt_succ_self _) hopen (List.mem_map_of_mem hy)
    · rcases hcall.grows.closed y.1 hy with hy | hle
      · exact hopen hy
      · omega
    · cases hy
  have hidle : (s'.make i a).used i = 0 := hcall.sound.idle i hnew
  have hobject : (i, a) ∈ (s'.make i a).objects :=
    List.mem_append_right _ (List.mem_singleton_self _)
  have hmade := hcall.sound.make hi hnew ho hname ha hnext
  exact {
    sound := hmade.link hobject (by rw [hidle, he]; rfl) hcall.done
      (List.mem_append_left _ hcall.object) (Nat.le_refl next)
    object := hobject
    used := by rw [Progress.link_used_self, hidle]
    grows := (((Grows.refl s).trans hcall.grows hlt).make (List.mem_singleton_self i)).link
      (List.mem_singleton_self i)
    called := by
      intro j hj
      rcases hcall.called j hj with rfl | hj
      · refine ⟨i, 0, e, ?_, by rw [he]; rfl, rfl⟩
        rw [Progress.link_used_self]
        omega
      · exact Progress.Called.link (s := s'.make i a) hj }

include hx in
theorem surfaceBrush_run {surface : Nat} {factory : String} (type : TypeRef)
    (hs : Waits x height (height i + 1) s m.view) (hopen : i ∉ s.done) (hi : i ∈ x.plan.order)
    (ho : x.plan.graph.objects[i]? = some (.surfaceBrush surface))
    (hname : x.plan.nameOf i = .ok name) (hfactory : x.plan.nameOf surface = .ok factory)
    (hlt : height surface < height i) (hgives : GivesObject x height depth surface) :
    MakesNode x height depth s i name
      [Plan.declareResult type (Plan.create "CreateSurfaceBrush" [.selfCall factory []])] m := by
  have hedges : x.plan.graph.wiresOf i =
      [⟨⟨"Surface", surface⟩, "CreateSurfaceBrush"⟩] := Graph.wiresOf_some ho
  have hidle := hs.sound.idle i (hs.untouched i (Nat.lt_succ_self _) hopen)
  have hfirst : (x.plan.graph.wiresOf i)[s.used i]?
      = some ⟨⟨"Surface", surface⟩, "CreateSurfaceBrush"⟩ := by
    rw [hidle, hedges]
    rfl
  have hwaits : Waits x height (height surface + 1) s m.view :=
    { hs with untouched := fun q hq => hs.untouched q (by omega) }
  have hshared : surface ∈ s.done → surface ∈ x.plan.shared := fun hdone =>
    shared_of_called hx hs.sound hi hfirst (hs.called surface hdone)
  obtain ⟨b, m', s', hcall, hreturned⟩ := hgives factory s m hfactory hwaits hshared
  obtain ⟨c, hc, hcompositor⟩ := hs.sound.ready.compositor
  rw [Machine.view_fields] at hcompositor
  have hkind : (Request.call c "CreateSurfaceBrush" [.object b]).kind? = some .surfaceBrush := rfl
  have heval : (Plan.create "CreateSurfaceBrush" [.selfCall factory []]).eval (x.unit.invoke depth)
      [] m = .ok (m'.ask (.call c "CreateSurfaceBrush" [.object b])) := by
    simp [Plan.create, Expr.eval, Expr.evalAll, hcompositor, hcall, Value.receive_of_ne_null hc]
  have hexec := exec_declareResult name type hkind heval
  have hmade := Inside.single hs hopen hi ho hname hedges hlt hreturned (Nat.le_refl m'.next)
    (Nat.lt_succ_self m'.next)
  refine ⟨m'.next, (s'.make i m'.next).link i, [("result", .object m'.next)], _, ?_,
    Store.NoFields.declare (fun _ _ => rfl) (by decide), rfl,
    fun rest => Node.execAll_cons_none hexec⟩
  rw [Machine.view_ask_result m' name hkind, hedges]
  exact hmade

end Bodies

section Methods

variable {x : Parts} {g : Graph} {t : Target} (hx : x.Of g t) {i : Nat} {name : String}

include hx in
theorem find?_factory {order : List Nat} {ms : List Method}
    (h : List.Forall₂ (fun i m => x.plan.factory i = .ok m) order ms) (hi : i ∈ order)
    (hname : x.plan.nameOf i = .ok name) :
    ∃ m, x.plan.factory i = .ok m
      ∧ ms.find? (fun m => !m.isConstructor && m.name == name) = some m := by
  induction h with
  | nil => cases hi
  | @cons j m order ms hm _ ih =>
      obtain ⟨o, other, body, _, hother, _, rfl⟩ := Plan.factory_eq_ok hm
      by_cases hji : j = i
      · subst hji
        cases hname.symm.trans hother
        exact ⟨_, hm, by simp [Plan.ordinary]⟩
      · have hne : other ≠ name := fun heq => hji (hx.planned.nameOf_injective (heq ▸ hother) hname)
        obtain ⟨m', hm', hfind⟩ := ih ((List.mem_cons.1 hi).resolve_left fun heq => hji heq.symm)
        exact ⟨m', hm', by simpa [Plan.ordinary, hne] using hfind⟩

include hx in
theorem Parts.method?_factory (hname : x.plan.nameOf i = .ok name) :
    ∃ o body, x.plan.graph.objects[i]? = some o ∧ x.plan.objectStatements i o = .ok body
      ∧ x.unit.method? name = some (Plan.ordinary name (x.plan.objectType o.kind)
          (Plan.factoryNodes (x.plan.shared.contains i) name body)) := by
  have hnot : name ∉ Plan.fixedMembers := by
    obtain ⟨kind, n, rfl⟩ := hx.planned.exists_name_eq hname
    exact Plan.factoryName_not_fixed kind n
  have hfixed : (x.plan.getterMethods x.ticks ++ x.plan.themeMethodList x.usesTheme).find?
      (fun m => !m.isConstructor && m.name == name) = none := by
    apply List.find?_eq_none.2
    intro m hm
    have hne : m.name ≠ name := fun heq => hnot (heq ▸ x.fixed_names.subset (List.mem_map_of_mem hm))
    simp [hne]
  obtain ⟨m, hm, hfind⟩ := find?_factory hx hx.factories (hx.planned.mem_order_of_nameOf hname) hname
  obtain ⟨o, other, body, ho, hother, hbody, rfl⟩ := Plan.factory_eq_ok hm
  cases hname.symm.trans hother
  refine ⟨o, body, ho, hbody, ?_⟩
  rw [ClassUnit.method?, Parts.unit, List.find?_cons_of_neg (by simp [Plan.constructorMethod]),
    List.find?_append, hfixed, Option.none_or, hfind]

end Methods

section Factories

variable {x : Parts} {t : Target} (hx : x.Of x.plan.graph t) {height : Nat → Nat} {s : Progress}
  {i depth : Nat} {name : String} {m : Machine}

include hx in
theorem usesTheme_of_referencesTheme {o : CompositionObject} (hi : i ∈ x.plan.order)
    (ho : x.plan.graph.objects[i]? = some o) (h : o.referencesTheme = true) :
    x.usesTheme = true := by
  have htheme := hx.theme
  rw [Graph.usesTheme] at htheme
  split at htheme
  · exact (Except.ok.inj htheme).symm
  · rw [hx.planned.order] at htheme
    rw [← Except.ok.inj htheme]
    exact List.any_eq_true.2 ⟨i, hi, by rw [Graph.themeAt, ho]; exact h⟩

include hx in
theorem factory_run {o : CompositionObject} {body : List Statement} (hdepth : 2 ≤ depth)
    (hs : Waits x height (height i + 1) s m.view) (hopen : i ∉ s.done)
    (ho : x.plan.graph.objects[i]? = some o) (hname : x.plan.nameOf i = .ok name)
    (hbody : x.plan.objectStatements i o = .ok body)
    (hedges : EdgesGive x height depth i) :
    MakesNode x height depth s i name body m := by
  have hi := hx.planned.mem_order_of_nameOf hname
  by_cases hsurface : ∃ surface, o = .surfaceBrush surface
  · obtain ⟨surface, rfl⟩ := hsurface
    obtain ⟨type, factory, hfactory, rfl⟩ := surfaceStatements_eq_ok hbody
    have hmem : (⟨⟨"Surface", surface⟩, "CreateSurfaceBrush"⟩ : Wire) ∈ x.plan.graph.wiresOf i := by
      rw [Graph.wiresOf_some ho]
      exact List.mem_singleton_self _
    obtain ⟨hlt, hgives⟩ := hedges _ hmem
    exact surfaceBrush_run hx type hs hopen hi ho hname hfactory hlt hgives
  · have hbuilds : Builds x name o body :=
      builds_of_objectStatements hx.planned.valid ho (fun surface heq => hsurface ⟨surface, heq⟩)
        (usesTheme_of_referencesTheme hx hi ho) hbody
    exact hbuilds.run hx hdepth hs hopen hi ho hname hedges

theorem givesObject_done {body : List Statement} {type : TypeRef}
    (hmethod : x.unit.method? name = some (Plan.ordinary name type
      (Plan.factoryNodes (x.plan.shared.contains i) name body)))
    (hname : x.plan.nameOf i = .ok name) (hs : Waits x height (height i + 1) s m.view)
    (hdone : i ∈ s.done) (hshared : i ∈ x.plan.shared) :
    ∃ a m' s', x.unit.invoke (depth + 1) name [] m = .ok (.object a, m')
      ∧ Returned x height s i a s' m'.view := by
  obtain ⟨y, hy, rfl⟩ := List.mem_map.1 (hs.sound.finished i hdone).1
  have hkept := hs.sound.kept y.1 name y.2 hshared hname hdone hy
  rw [Plan.factoryNodes, List.contains_iff_mem.2 hshared] at hmethod
  exact ⟨y.2, m, s, ClassUnit.invoke_ordinary hmethod (Plan.execAll_keptNode hkept (by simp) _),
    ⟨hs.sound, hy, hdone, .refl s, fun j hj => .inr (hs.called j hj)⟩⟩

theorem execAll_returned (call : Caller) {locals : Store} {a : Nat} (hlocals : locals.NoFields)
    (hresult : HasResult a locals) (shared : Bool)
    (hfield : shared = true → m.fields.lookup (Plan.cacheField name) = some .null) :
    ∃ m', Node.execAll call name ((if shared then
          [Node.stmt (.assign (Plan.cacheField name) Plan.result)] else [])
            ++ [Node.stmt (.ret (some Plan.result))]) locals m = .ok ⟨some (.object a), locals, m'⟩
      ∧ m'.view = { m.view with fields := m'.fields }
      ∧ (shared = true → m'.fields.lookup (Plan.cacheField name) = some (.object a))
      ∧ ∀ field, field ≠ Plan.cacheField name → m'.fields.lookup field = m.fields.lookup field := by
  have hreturn : ∀ m : Machine, Node.execAll call name [.stmt (.ret (some Plan.result))] locals m
      = .ok ⟨some (.object a), locals, m⟩ := by
    intro m
    have hlookup : locals.lookup "result" = some (.object a) := hresult
    simp [Node.execAll, Node.exec, Statement.exec, Plan.result, Expr.eval, hlookup]
  cases shared with
  | false => exact ⟨m, hreturn m, rfl, by simp, fun _ _ => rfl⟩
  | true =>
      have hlocal : locals.lookup (Plan.cacheField name) = none :=
        hlocals _ (Plan.cacheField_head name)
      have hassign : Node.exec call name (.stmt (.assign (Plan.cacheField name) Plan.result)) locals m
          = .ok ⟨none, locals,
              { m with fields := m.fields.put (Plan.cacheField name) (.object a) }⟩ := by
        have hlookup : locals.lookup "result" = some (.object a) := hresult
        simp [Node.exec, Statement.exec, Plan.result, Expr.eval, hlookup, Statement.assignTo, hlocal,
          hfield]
      refine ⟨_, (Node.execAll_cons_none hassign).trans (hreturn _), rfl, fun _ => ?_, fun field hne => ?_⟩
      · exact Store.lookup_put_self (by simp [hfield])
      · exact Store.lookup_put_of_ne hne

include hx in
theorem givesObject_new {body : List Statement} {type : TypeRef} {a : Nat} {s' : Progress}
    {locals : Store} {m' : Machine}
    (hmethod : x.unit.method? name = some (Plan.ordinary name type
      (Plan.factoryNodes (x.plan.shared.contains i) name body)))
    (hname : x.plan.nameOf i = .ok name) (hs : Waits x height (height i + 1) s m.view)
    (hopen : i ∉ s.done)
    (hinside : Inside x height s i a (x.plan.graph.wiresOf i).length s' m'.view)
    (hlocals : locals.NoFields) (hresult : HasResult a locals)
    (hrun : ∀ rest, Node.execAll (x.unit.invoke depth) name (body.map .stmt ++ rest) [] m
      = Node.execAll (x.unit.invoke depth) name rest locals m') :
    ∃ m'', x.unit.invoke (depth + 1) name [] m = .ok (.object a, m'')
      ∧ Returned x height s i a (s'.finish i) m''.view := by
  have hmem : x.plan.shared.contains i = true ↔ i ∈ x.plan.shared := List.contains_iff_mem
  obtain ⟨m'', hend, hview, hkept, hfields⟩ := execAll_returned (x.unit.invoke depth) hlocals
    hresult (x.plan.shared.contains i)
    fun hshared => hinside.sound.empty i name (hmem.1 hshared) hname (hinside.open hopen)
  have hnodes : Node.execAll (x.unit.invoke depth) name
      (Plan.factoryNodes (x.plan.shared.contains i) name body) [] m
        = .ok ⟨some (.object a), locals, m''⟩ := by
    rw [Plan.factoryNodes, List.append_assoc, List.append_assoc]
    cases hshared : x.plan.shared.contains i with
    | false =>
        rw [hshared] at hend
        exact (hrun _).trans hend
    | true =>
        rw [hshared] at hend
        have hempty := hs.sound.empty i name (hmem.1 hshared) hname hopen
        exact (Plan.execAll_keptNode_null hempty _).trans ((hrun _).trans hend)
  refine ⟨m'', ClassUnit.invoke_ordinary hmethod hnodes, ?_⟩
  exact {
    sound := by
      rw [hview]
      exact hinside.sound.finish hx hinside.object hname hinside.used
        (fun hshared => hkept (hmem.2 hshared)) hfields
    object := hinside.object
    done := List.mem_cons_self ..
    grows := hinside.grows.finish
    called := by
      intro j hj
      rcases List.mem_cons.1 hj with rfl | hj
      · exact .inl rfl
      · exact .inr (hinside.called j hj) }

include hx in
theorem givesObject_step (hdepth : 2 ≤ depth)
    (hedges : EdgesGive x height depth i) :
    GivesObject x height (depth + 1) i := by
  intro name s m hname hs hshared
  obtain ⟨o, body, ho, hbody, hmethod⟩ := Parts.method?_factory hx hname
  by_cases hdone : i ∈ s.done
  · exact givesObject_done hmethod hname hs hdone (hshared hdone)
  · obtain ⟨a, s', locals, m', hinside, hlocals, hresult, hrun⟩ :=
      factory_run hx hdepth hs hdone ho hname hbody hedges
    obtain ⟨m'', hcall, hreturned⟩ :=
      givesObject_new hx hmethod hname hs hdone hinside hlocals hresult hrun
    exact ⟨a, m'', s'.finish i, hcall, hreturned⟩

include hx in
theorem givesObject (hheight : ∀ i, ∀ e ∈ x.plan.graph.edgesOf i, height e.target < height i)
    (i : Nat) (hdepth : height i + 3 ≤ depth) : GivesObject x height depth i := by
  -- besides one call for each step down there are two, for the property set and for colors
  induction hn : height i using Nat.strongRecOn generalizing i depth with
  | ind n ih =>
      obtain ⟨depth, rfl⟩ := Nat.exists_eq_add_of_le' (Nat.le_trans (Nat.le_add_left 1 _) hdepth)
      apply givesObject_step hx (by omega)
      intro e he
      have hlt := hheight i e.toEdge (Graph.edge_mem_of_wire he)
      exact ⟨hlt, ih (height e.target) (hn ▸ hlt) e.target (by omega) rfl⟩

end Factories

end Scenograph
