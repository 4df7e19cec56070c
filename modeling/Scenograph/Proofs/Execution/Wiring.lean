import Scenograph.Proofs.Execution.Theme

namespace Scenograph

structure Wire extends Edge where
  via : String

def ObjectKind.linksVia : ObjectKind → String
  | .containerVisual => "InsertAtTop"
  | .spriteVisual => "Brush"
  | .effectBrush => "SetSourceParameter"
  | .surfaceBrush => "CreateSurfaceBrush"
  | .expressionAnimation => "SetReferenceParameter"
  | .colorBrush | .imageSurface | .scalarAnimation | .vector2Animation => ""

def CompositionObject.wires (o : CompositionObject) : List Wire :=
  (o.ownEdges.map fun e => ⟨e, o.kind.linksVia⟩)
    ++ o.animators.map fun a => ⟨⟨a.property, a.animation⟩, "StartAnimation"⟩

def Graph.wiresOf (g : Graph) (i : Nat) : List Wire :=
  match g.objects[i]? with
  | some o => o.wires
  | none => []

section Edges

variable {g : Graph} {i k : Nat} {o : CompositionObject} {w : Wire} {e : Edge}

theorem Graph.wiresOf_some (ho : g.objects[i]? = some o) : g.wiresOf i = o.wires := by
  rw [wiresOf, ho]

theorem Graph.map_toEdge_wiresOf (g : Graph) (i : Nat) :
    (g.wiresOf i).map Wire.toEdge = g.edgesOf i := by
  cases ho : g.objects[i]? <;>
    simp [wiresOf, edgesOf, ho, CompositionObject.wires, CompositionObject.edges, Function.comp_def]

theorem Graph.edge_of_wire (h : (g.wiresOf i)[k]? = some w) :
    (g.edgesOf i)[k]? = some w.toEdge := by
  rw [← g.map_toEdge_wiresOf i, List.getElem?_map, h, Option.map_some]

theorem Graph.edge_mem_of_wire (h : w ∈ g.wiresOf i) : w.toEdge ∈ g.edgesOf i :=
  g.map_toEdge_wiresOf i ▸ List.mem_map_of_mem h

theorem Graph.exists_wire (h : e ∈ g.edgesOf i) : ∃ w ∈ g.wiresOf i, w.toEdge = e :=
  List.mem_map.1 ((g.map_toEdge_wiresOf i).symm ▸ h)

end Edges

/-- An invariant of linking the object `a` along edges: it holds of the machine with the number of
edges that are linked, and a call of the next edge's factory with the link after it moves it on. -/
structure Wired (x : Parts) (depth a : Nat) (es : List Wire) (I : Nat → View → Prop) : Prop where
  ready : ∀ k m, I k (Machine.view m) → Ready x m.fields
  quiet : ∀ k m m', I k (Machine.view m) → Quiet m m' → I k m'.view
  call : ∀ k e, es[k]? = some e → ∀ m name, I k (Machine.view m) → x.plan.nameOf e.target = .ok name →
    ∃ b m', x.unit.invoke depth name [] m = .ok (.object b, m') ∧ ∀ next, m'.next ≤ next →
      I (k + 1) { m'.view with next, links := m'.links ++ [⟨a, e.via, e.label, b⟩] }

def Wires (x : Parts) (method : String) (a : Nat) (P : Store → Prop) (es : List Wire)
    (ss : List Statement) (Q : Store → Prop) : Prop :=
  ∀ depth, 2 ≤ depth → ∀ I, Wired x depth a es I → ∀ locals m, locals.NoFields → P locals →
    I 0 (Machine.view m) → ∃ locals' m', locals'.NoFields ∧ Q locals' ∧ I es.length (Machine.view m') ∧
      ∀ rest, Node.execAll (x.unit.invoke depth) method (ss.map .stmt ++ rest) locals m
        = Node.execAll (x.unit.invoke depth) method rest locals' m'

def LinksOnce (a : Nat) (P : Store → Prop) (via label factory : String) (s : Statement) : Prop :=
  ∀ call method locals m b m', P locals → call factory [] m = .ok (.object b, m') →
    ∃ m'', m'.next ≤ m''.next
      ∧ m''.view = { m'.view with next := m''.next, links := m'.links ++ [⟨a, via, label, b⟩] }
      ∧ s.exec call method locals m = .ok ⟨none, locals, m''⟩

section Rules

variable {x : Parts} {method : String} {a depth : Nat} {P Q R : Store → Prop} {es es' : List Wire}
  {ss ss' : List Statement} {I : Nat → View → Prop}

theorem Wired.left (h : Wired x depth a (es ++ es') I) : Wired x depth a es I where
  ready := h.ready
  quiet := h.quiet
  call := by
    intro k e he
    have hk : k < es.length := (List.getElem?_eq_some_iff.1 he).1
    exact h.call k e (by rwa [List.getElem?_append_left hk])

theorem Wired.right (h : Wired x depth a (es ++ es') I) :
    Wired x depth a es' fun k => I (es.length + k) where
  ready := fun k => h.ready _
  quiet := fun k => h.quiet _
  call := by
    intro k e he
    exact h.call (es.length + k) e (by simpa [List.getElem?_append_right] using he)

theorem Runs.wires (h : Runs x method P ss Q) : Wires x method a P [] ss Q := by
  intro depth hdepth I hI locals m hlocals hP hm
  obtain ⟨locals', m', hlocals', hQ, hq, hrun⟩ := h depth hdepth locals m hlocals hP (hI.ready 0 m hm)
  exact ⟨locals', m', hlocals', hQ, hI.quiet 0 m m' hm hq, hrun⟩

theorem Wires.append (h : Wires x method a P es ss Q) (h' : Wires x method a Q es' ss' R) :
    Wires x method a P (es ++ es') (ss ++ ss') R := by
  intro depth hdepth I hI locals m hlocals hP hm
  obtain ⟨locals₁, m₁, hlocals₁, hQ, hm₁, hrun₁⟩ :=
    h depth hdepth I hI.left locals m hlocals hP hm
  obtain ⟨locals₂, m₂, hlocals₂, hR, hm₂, hrun₂⟩ :=
    h' depth hdepth _ hI.right locals₁ m₁ hlocals₁ hQ hm₁
  refine ⟨locals₂, m₂, hlocals₂, hR, by rwa [List.length_append], fun rest => ?_⟩
  rw [List.map_append, List.append_assoc, hrun₁, hrun₂]

theorem LinksOnce.wires {e : Wire} {factory : String} {s : Statement}
    (hname : x.plan.nameOf e.target = .ok factory) (h : LinksOnce a P e.via e.label factory s) :
    Wires x method a P [e] [s] P := by
  intro depth hdepth I hI locals m hlocals hP hm
  obtain ⟨b, m', hcall, hnext⟩ := hI.call 0 e rfl m factory hm hname
  obtain ⟨m'', hle, hview, hexec⟩ :=
    h (x.unit.invoke depth) method locals m b m' hP hcall
  refine ⟨locals, m'', hlocals, hP, ?_, fun rest => Node.execAll_cons_none (by rw [Node.exec, hexec])⟩
  rw [hview]
  exact hnext m''.next hle

theorem Wires.mono (h : Wires x method a P es ss Q) (hQ : ∀ locals, Q locals → R locals) :
    Wires x method a P es ss R := by
  intro depth hdepth I hI locals m hlocals hP hm
  obtain ⟨locals', m', hlocals', hlast, hrest⟩ := h depth hdepth I hI locals m hlocals hP hm
  exact ⟨locals', m', hlocals', hQ locals' hlast, hrest⟩

theorem wires_flatMap {α : Type} {f : α → Except Fault Statement} {edges : α → List Wire}
    {items : List α}
    (hitem : ∀ item ∈ items, ∀ s, f item = .ok s → Wires x method a P (edges item) [s] P)
    (h : items.mapM f = .ok ss) : Wires x method a P (items.flatMap edges) ss P := by
  have hall := mapM_eq_ok.1 h
  clear h
  induction hall with
  | nil => exact (runs_nil fun _ => id).wires
  | cons hs _ ih =>
      exact (hitem _ (List.mem_cons_self ..) _ hs).append
        (ih fun item hmem => hitem item (List.mem_cons_of_mem _ hmem))

theorem wires_map {α : Type} {f : α → Except Fault Statement} {edge : α → Wire} {items : List α}
    (hitem : ∀ item s, f item = .ok s → Wires x method a P [edge item] [s] P)
    (h : items.mapM f = .ok ss) : Wires x method a P (items.map edge) ss P := by
  rw [List.map_eq_flatMap]
  exact wires_flatMap (fun item _ => hitem item) h

end Rules

section Links

variable {a : Nat} {P : Store → Prop} {factory label : String}

theorem Machine.view_ask_link {m : Machine} {r : Request} {l : Link} (hkind : r.kind? = none)
    (hlink : r.link? m.next = some l) : (m.ask r).2.view =
      { m.view with next := (m.ask r).2.next, links := m.links ++ [l] } := by
  rw [Machine.view_ask]
  simp [hkind, hlink, Machine.view]

theorem linksOnce_call {name : String} (hname : name ∈ linkMethods)
    (hP : ∀ locals, P locals → locals.lookup "result" = some (.object a)) :
    LinksOnce a P name label factory
      (.eval (.call Plan.result name [.text label, .selfCall factory []])) := by
  intro call method locals m b m' hlocals hcall
  have hmaker : ∀ name ∈ linkMethods, ObjectKind.all.find? (·.maker == name) = none := by decide
  have hlink : (Request.call (.object a) name [.data (.string label), .object b]).link? m'.next
      = some ⟨a, name, label, b⟩ := by
    simp [Request.link?, hname, Link.between?, Value.object?]
  refine ⟨(m'.ask (.call (.object a) name [.data (.string label), .object b])).2, by simp,
    Machine.view_ask_link (hmaker name hname) hlink, ?_⟩
  simp [Statement.exec, Plan.result, Expr.eval, Expr.evalAll, hP locals hlocals, hcall, Expr.text,
    Value.ofLiteral, Value.receive]

theorem linksOnce_insert
    (hP : ∀ locals, P locals → locals.lookup "children" = some (.part (.object a) "Children")) :
    LinksOnce a P "InsertAtTop" "Children" factory
      (.eval (.call (.var "children") "InsertAtTop" [.selfCall factory []])) := by
  intro call method locals m b m' hlocals hcall
  refine ⟨(m'.ask (.call (.part (.object a) "Children") "InsertAtTop" [.object b])).2, by simp,
    Machine.view_ask_link rfl rfl, ?_⟩
  simp [Statement.exec, Expr.eval, Expr.evalAll, hP locals hlocals, hcall, Value.receive]

theorem linksOnce_brush (hP : ∀ locals, P locals → locals.lookup "result" = some (.object a)) :
    LinksOnce a P "Brush" "Brush" factory (.setProperty Plan.result "Brush" (.selfCall factory [])) := by
  intro call method locals m b m' hlocals hcall
  refine ⟨(m'.ask (.setProperty (.object a) "Brush" (.object b))).2, by simp,
    Machine.view_ask_link rfl rfl, ?_⟩
  simp [Statement.exec, Plan.result, Expr.eval, Expr.evalAll, hP locals hlocals, hcall,
    Value.receive]

end Links

end Scenograph
