import Scenograph.Proofs.Execution.View
import Scenograph.Proofs.Lowering.Shape

namespace Scenograph

structure Ready (x : Parts) (fields : Store) : Prop where
  compositor : ∃ c, c ≠ Value.null ∧ fields.lookup "_c" = some c
  root : (fields.lookup "_root").isSome
  theme : x.usesTheme = true → fields.HasThemeSet
  backing : x.usesTheme = true → ∀ b ∈ x.plan.graph.bindings.values,
    (fields.lookup (Plan.backingField b)).isSome

theorem Ready.quiet {x : Parts} {m m' : Machine} (h : Ready x m.fields) (hq : Quiet m m') :
    Ready x m'.fields where
  compositor := by
    obtain ⟨c, hc, hlookup⟩ := h.compositor
    exact ⟨c, hc, (hq.fields "_c" (by decide)).trans hlookup⟩
  root := by
    rw [hq.fields "_root" (by decide)]
    exact h.root
  theme := fun htheme => hq.theme (h.theme htheme)
  backing := by
    intro htheme b hb
    by_cases hname : Plan.backingField b = "_themeProperties"
    · obtain ⟨v, hv, _⟩ := hq.theme (h.theme htheme)
      rw [hname, hv]
      rfl
    · rw [hq.fields _ hname]
      exact h.backing htheme b hb

def IsAnswer (v : Value) : Prop :=
  ∃ id, v = .answer id

def Store.NoFields (locals : Store) : Prop :=
  ∀ name : String, name.toList.head? = some '_' → locals.lookup name = none

theorem Store.NoFields.declare {locals : Store} (h : locals.NoFields) {name : String} {v : Value}
    (hname : name.toList.head? ≠ some '_') : Store.NoFields ((name, v) :: locals) := by
  intro field hfield
  have hne : (field == name) = false := by
    simpa using fun heq : field = name => hname (heq ▸ hfield)
  rw [List.lookup_cons, hne]
  exact h field hfield

section Rules

variable {x : Parts} {method : String} {P Q R : Store → Prop} {V W : Value → Prop}

/-- Where the local variables satisfy `P`, the expression gives a value in `V` and is quiet. Two
calls inside each other are enough for it. -/
def Evaluates (x : Parts) (P : Store → Prop) (e : Expr) (V : Value → Prop) : Prop :=
  ∀ depth, 2 ≤ depth → ∀ locals m, locals.NoFields → P locals → Ready x m.fields →
    ∃ v m', V v ∧ Quiet m m' ∧ e.eval (x.unit.invoke depth) locals m = .ok (v, m')

def EvaluatesAll (x : Parts) (P : Store → Prop) (es : List Expr) (Vs : List Value → Prop) : Prop :=
  ∀ depth, 2 ≤ depth → ∀ locals m, locals.NoFields → P locals → Ready x m.fields →
    ∃ vs m', Vs vs ∧ Quiet m m' ∧ Expr.evalAll (x.unit.invoke depth) locals es m = .ok (vs, m')

theorem Evaluates.mono {e : Expr} (h : Evaluates x P e V) (hV : ∀ v, V v → W v) :
    Evaluates x P e W := by
  intro depth hdepth locals m hlocals hP hm
  obtain ⟨v, m', hv, hrest⟩ := h depth hdepth locals m hlocals hP hm
  exact ⟨v, m', hV v hv, hrest⟩

theorem Evaluates.any {e : Expr} (h : Evaluates x P e V) : Evaluates x P e fun _ => True :=
  h.mono fun _ _ => trivial

theorem EvaluatesAll.mono {es : List Expr} {Vs Ws : List Value → Prop} (h : EvaluatesAll x P es Vs)
    (hVs : ∀ vs, Vs vs → Ws vs) : EvaluatesAll x P es Ws := by
  intro depth hdepth locals m hlocals hP hm
  obtain ⟨vs, m', hvs, hrest⟩ := h depth hdepth locals m hlocals hP hm
  exact ⟨vs, m', hVs vs hvs, hrest⟩

theorem evaluates_local {name : String}
    (h : ∀ locals, P locals → ∃ v, locals.lookup name = some v ∧ V v) :
    Evaluates x P (.var name) V := by
  intro depth _ locals m _ hP _
  obtain ⟨v, hlookup, hv⟩ := h locals hP
  exact ⟨v, m, hv, .refl m, by simp [Expr.eval, hlookup]⟩

theorem evaluates_compositor : Evaluates x P (.var "_c") (· ≠ .null) := by
  intro depth _ locals m hlocals _ hm
  obtain ⟨c, hc, hlookup⟩ := hm.compositor
  exact ⟨c, m, hc, .refl m, by simp [Expr.eval, hlocals "_c" (by decide), hlookup]⟩

theorem evaluates_lit (value : Literal) : Evaluates x P (.lit value) (· = .ofLiteral value) := by
  intro depth _ locals m _ _ _
  exact ⟨_, m, rfl, .refl m, by rw [Expr.eval]⟩

theorem evaluates_enumMember (type : TypeRef) (member : String) :
    Evaluates x P (.enumMember type member) (· = .constant type member) := by
  intro depth _ locals m _ _ _
  exact ⟨_, m, rfl, .refl m, by rw [Expr.eval]⟩

theorem Value.receive_of_ne_null {v : Value} (h : v ≠ .null) : v.receive = .ok v := by
  cases v with
  | null => exact absurd rfl h
  | _ => rfl

theorem evaluates_property {receiver : Expr} {name : String} (h : Evaluates x P receiver V)
    (hnull : ∀ v, V v → v ≠ .null) :
    Evaluates x P (.property receiver name) fun w => ∃ v, V v ∧ w = .part v name := by
  intro depth hdepth locals m hlocals hP hm
  obtain ⟨v, m', hv, hq, heval⟩ := h depth hdepth locals m hlocals hP hm
  refine ⟨.part v name, m', ⟨v, hv, rfl⟩, hq, ?_⟩
  simp [Expr.eval, heval, Value.receive_of_ne_null (hnull v hv)]

theorem evaluatesAll_nil : EvaluatesAll x P [] (· = []) := by
  intro depth _ locals m _ _ _
  exact ⟨[], m, rfl, .refl m, by rw [Expr.evalAll]⟩

theorem evaluatesAll_cons {e : Expr} {es : List Expr} {Vs : List Value → Prop}
    (h : Evaluates x P e V) (hs : EvaluatesAll x P es Vs) :
    EvaluatesAll x P (e :: es) fun vs => ∃ v rest, vs = v :: rest ∧ V v ∧ Vs rest := by
  intro depth hdepth locals m hlocals hP hm
  obtain ⟨v, m₁, hv, hq₁, heval⟩ := h depth hdepth locals m hlocals hP hm
  obtain ⟨vs, m₂, hvs, hq₂, hevals⟩ := hs depth hdepth locals m₁ hlocals hP (hm.quiet hq₁)
  exact ⟨v :: vs, m₂, ⟨v, vs, rfl, hv, hvs⟩, hq₁.trans hq₂, by simp [Expr.evalAll, heval, hevals]⟩

theorem evaluatesAll_any {es : List Expr} (h : ∀ e ∈ es, Evaluates x P e fun _ => True) :
    EvaluatesAll x P es fun _ => True := by
  induction es with
  | nil => exact evaluatesAll_nil.mono fun _ _ => trivial
  | cons e es ih =>
      have hrest := ih fun e' he' => h e' (List.mem_cons_of_mem _ he')
      exact (evaluatesAll_cons (h e (List.mem_cons_self ..)) hrest).mono fun _ _ => trivial

theorem evaluates_call {receiver : Expr} {name : String} {args : List Expr}
    {Vs : List Value → Prop} (hname : ObjectKind.all.find? (·.maker == name) = none)
    (hreceiver : Evaluates x P receiver V) (hnull : ∀ v, V v → v ≠ .null)
    (hargs : EvaluatesAll x P args Vs)
    (hlink : ∀ id v vs, V v → Vs vs → (Request.call v name vs).link? id = none) :
    Evaluates x P (.call receiver name args) IsAnswer := by
  intro depth hdepth locals m hlocals hP hm
  obtain ⟨v, m₁, hv, hq₁, heval⟩ := hreceiver depth hdepth locals m hlocals hP hm
  obtain ⟨vs, m₂, hvs, hq₂, hevals⟩ := hargs depth hdepth locals m₁ hlocals hP (hm.quiet hq₁)
  have hkind : (Request.call v name vs).kind? = none := hname
  refine ⟨.answer m₂.next, (m₂.ask (.call v name vs)).2, ⟨_, rfl⟩,
    (hq₁.trans hq₂).trans (.ask m₂ hkind (hlink m₂.next v vs hv hvs)), ?_⟩
  simp [Expr.eval, heval, hevals, Value.receive_of_ne_null (hnull v hv), Machine.ask, Request.reply,
    hkind]

theorem evaluates_construct {type : TypeRef} {args : List Expr} {Vs : List Value → Prop}
    (hargs : EvaluatesAll x P args Vs) : Evaluates x P (.construct type args) IsAnswer := by
  intro depth hdepth locals m hlocals hP hm
  obtain ⟨vs, m', hvs, hq, hevals⟩ := hargs depth hdepth locals m hlocals hP hm
  refine ⟨.answer m'.next, (m'.ask (.construct type vs)).2, ⟨_, rfl⟩,
    hq.trans (.ask m' rfl rfl), ?_⟩
  simp [Expr.eval, hevals, Machine.ask, Request.reply, Request.kind?]

def Runs (x : Parts) (method : String) (P : Store → Prop) (ss : List Statement)
    (Q : Store → Prop) : Prop :=
  ∀ depth, 2 ≤ depth → ∀ locals m, locals.NoFields → P locals → Ready x m.fields →
    ∃ locals' m', locals'.NoFields ∧ Q locals' ∧ Quiet m m' ∧
      ∀ rest, Node.execAll (x.unit.invoke depth) method (ss.map .stmt ++ rest) locals m
        = Node.execAll (x.unit.invoke depth) method rest locals' m'

theorem runs_nil (h : ∀ locals, P locals → Q locals) : Runs x method P [] Q := by
  intro depth _ locals m hlocals hP _
  exact ⟨locals, m, hlocals, h locals hP, .refl m, fun _ => rfl⟩

theorem Runs.append {ss rest : List Statement} (h : Runs x method P ss Q)
    (h' : Runs x method Q rest R) : Runs x method P (ss ++ rest) R := by
  intro depth hdepth locals m hlocals hP hm
  obtain ⟨locals₁, m₁, hlocals₁, hQ, hq₁, hrun₁⟩ := h depth hdepth locals m hlocals hP hm
  obtain ⟨locals₂, m₂, hlocals₂, hR, hq₂, hrun₂⟩ :=
    h' depth hdepth locals₁ m₁ hlocals₁ hQ (hm.quiet hq₁)
  refine ⟨locals₂, m₂, hlocals₂, hR, hq₁.trans hq₂, fun tail => ?_⟩
  rw [List.map_append, List.append_assoc, hrun₁, hrun₂]

theorem runs_all {ss : List Statement} (h : ∀ s ∈ ss, Runs x method P [s] P) :
    Runs x method P ss P := by
  induction ss with
  | nil => exact runs_nil fun _ => id
  | cons s ss ih =>
      exact (h s (List.mem_cons_self ..)).append (ih fun s' hs' => h s' (List.mem_cons_of_mem _ hs'))

theorem runs_eval {e : Expr} (h : Evaluates x P e V) : Runs x method P [.eval e] P := by
  intro depth hdepth locals m hlocals hP hm
  obtain ⟨v, m', _, hq, heval⟩ := h depth hdepth locals m hlocals hP hm
  refine ⟨locals, m', hlocals, hP, hq, fun rest => Node.execAll_cons_none ?_⟩
  simp [Node.exec, Statement.exec, heval]

theorem runs_declare {type : TypeRef} {name : String} {e : Expr} (hname : name ≠ "result")
    (hfield : name.toList.head? ≠ some '_') (h : Evaluates x P e V)
    (hQ : ∀ locals v, P locals → V v → Q ((name, v) :: locals)) :
    Runs x method P [.declare type name e] Q := by
  intro depth hdepth locals m hlocals hP hm
  obtain ⟨v, m', hv, hq, heval⟩ := h depth hdepth locals m hlocals hP hm
  refine ⟨(name, v) :: locals, m'.note (.declared method name v), hlocals.declare hfield,
    hQ locals v hP hv, hq.trans (.note m' hname), fun rest => Node.execAll_cons_none ?_⟩
  simp [Node.exec, Statement.exec, heval]

theorem runs_setProperty {receiver value : Expr} {name : String} (hreceiver : Evaluates x P receiver V)
    (hnull : ∀ v, V v → v ≠ .null) (hvalue : Evaluates x P value W)
    (hlink : ∀ id v w, V v → W w → (Request.setProperty v name w).link? id = none) :
    Runs x method P [.setProperty receiver name value] P := by
  intro depth hdepth locals m hlocals hP hm
  obtain ⟨v, m₁, hv, hq₁, heval₁⟩ := hreceiver depth hdepth locals m hlocals hP hm
  obtain ⟨w, m₂, hw, hq₂, heval₂⟩ := hvalue depth hdepth locals m₁ hlocals hP (hm.quiet hq₁)
  refine ⟨locals, (m₂.ask (.setProperty v name w)).2, hlocals, hP,
    (hq₁.trans hq₂).trans (.ask m₂ rfl (hlink m₂.next v w hv hw)),
    fun rest => Node.execAll_cons_none ?_⟩
  simp [Node.exec, Statement.exec, heval₁, heval₂, Value.receive_of_ne_null (hnull v hv)]

end Rules

section Bodies

variable {call : Caller} {method field : String} {m m' : Machine} {v : Value}

theorem ClassUnit.invoke_ordinary {u : ClassUnit} {depth : Nat} {returns : TypeRef}
    {nodes : List Node} {locals : Store}
    (hmethod : u.method? method = some (Plan.ordinary method returns nodes))
    (hrun : Node.execAll (u.invoke depth) method nodes [] m = .ok ⟨some v, locals, m'⟩) :
    u.invoke (depth + 1) method [] m = .ok (v, m') := by
  simp [ClassUnit.invoke, hmethod, Method.run, Plan.ordinary, Tree.exec, Node.exec, guardHolds, hrun]

theorem Plan.execAll_keptNode_null (h : m.fields.lookup field = some .null) (rest : List Node) :
    Node.execAll call method (Plan.keptNode field :: rest) [] m
      = Node.execAll call method rest [] m := by
  apply Node.execAll_cons_none
  simp [Plan.keptNode, Node.exec, guardHolds, Expr.eval, h]

theorem Plan.execAll_keptNode (h : m.fields.lookup field = some v) (hv : v ≠ .null)
    (rest : List Node) :
    Node.execAll call method (Plan.keptNode field :: rest) [] m = .ok ⟨some v, [], m⟩ := by
  apply Node.execAll_cons_some
  simp [Plan.keptNode, Node.exec, guardHolds, Expr.eval, h, hv, Node.execAll, Statement.exec]

end Bodies

end Scenograph
