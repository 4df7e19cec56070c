import Scenograph.Proofs.Execution.Quiet

namespace Scenograph

theorem Request.link?_call_eq_none {id : Nat} {v : Value} {name : String} {args : List Value}
    (h : name ∉ "CreateSurfaceBrush" :: "InsertAtTop" :: linkMethods) :
    (Request.call v name args).link? id = none := by
  simp only [List.mem_cons, not_or] at h
  obtain ⟨hsurface, hinsert, hlink⟩ := h
  unfold Request.link?
  split <;> simp_all

namespace ValueKind

theorem find?_maker_insertMethod (kind : ValueKind) :
    ObjectKind.all.find? (·.maker == kind.insertMethod) = none := by
  cases kind <;> decide

theorem insertMethod_links_nothing (kind : ValueKind) :
    kind.insertMethod ∉ "CreateSurfaceBrush" :: "InsertAtTop" :: linkMethods := by
  cases kind <;> decide

end ValueKind

def channels (v : Value) : List Value :=
  [.part v "R", .part v "G", .part v "B", .part v "A"]

section Calls

variable {x : Parts} (depth : Nat)

theorem Parts.method?_ensureTheme (h : x.usesTheme = true) :
    x.unit.method? "EnsureThemeProperties" = some x.plan.ensureThemeMethod := by
  simp [ClassUnit.method?, Parts.unit, Plan.constructorMethod, Plan.getterMethods,
    Plan.getterMethod, Plan.ordinary, Plan.themeMethodList, h, Plan.ensureThemeMethod]

theorem Parts.method?_color (h : x.usesTheme = true)
    (hany : x.plan.graph.bindings.values.any Plan.convertsColor = true) :
    x.unit.method? "ColorAsVector4" = some Plan.colorMethod := by
  simp only [ClassUnit.method?, Parts.unit, Plan.themeMethodList, h, hany, if_true]
  simp [Plan.constructorMethod, Plan.getterMethods, Plan.getterMethod, Plan.ordinary,
    Plan.ensureThemeMethod, Plan.colorMethod]

theorem invoke_color_eq (v : Value) (m : Machine) (h : x.usesTheme = true)
    (hany : x.plan.graph.bindings.values.any Plan.convertsColor = true) :
    x.unit.invoke (depth + 1) "ColorAsVector4" [v] m
      = .ok (m.ask (.construct (.builtIn .vector4) (channels v))) := by
  have hfind := Parts.method?_color h hany
  simp [ClassUnit.invoke, hfind, Method.run, Plan.colorMethod, Plan.ordinary, Tree.exec, Node.execAll,
    Node.exec, guardHolds, Statement.exec, Expr.eval, Expr.evalAll, channels, Machine.ask]

theorem invoke_color (v : Value) (m : Machine) (h : x.usesTheme = true)
    (hany : x.plan.graph.bindings.values.any Plan.convertsColor = true) :
    ∃ w m', Quiet m m' ∧ m'.fields = m.fields
      ∧ x.unit.invoke (depth + 1) "ColorAsVector4" [v] m = .ok (w, m') :=
  ⟨_, _, .ask m rfl rfl, rfl, invoke_color_eq depth v m h hany⟩

theorem eval_storedValue {b : Binding} {m : Machine} (h : x.usesTheme = true)
    (hb : b ∈ x.plan.graph.bindings.values)
    (hfield : (m.fields.lookup (Plan.backingField b)).isSome) :
    ∃ w m', Quiet m m' ∧ m'.fields = m.fields
      ∧ (Plan.storedValue b (.var (Plan.backingField b))).eval (x.unit.invoke (depth + 1)) [] m
        = .ok (w, m') := by
  obtain ⟨v, hv⟩ := Option.isSome_iff_exists.1 hfield
  cases hconverts : Plan.convertsColor b with
  | false => exact ⟨v, m, .refl m, rfl, by simp [Plan.storedValue, hconverts, Expr.eval, hv]⟩
  | true =>
      have hany := List.any_eq_true.2 ⟨b, hb, hconverts⟩
      obtain ⟨w, m', hq, hfields, hcall⟩ := invoke_color depth v m h hany
      refine ⟨w, m', hq, hfields, ?_⟩
      simp [Plan.storedValue, hconverts, Expr.eval, Expr.evalAll, hv, hcall]

theorem exec_seedStatement (method : String) {id : Nat} {b : Binding} {m : Machine}
    (h : x.usesTheme = true) (hb : b ∈ x.plan.graph.bindings.values)
    (hset : m.fields.lookup "_themeProperties" = some (.answer id))
    (hfield : (m.fields.lookup (Plan.backingField b)).isSome) :
    ∃ m', Quiet m m' ∧ m'.fields = m.fields
      ∧ (Plan.seedStatement b).exec (x.unit.invoke (depth + 1)) method [] m
        = .ok ⟨none, [], m'⟩ := by
  obtain ⟨w, m₁, hq, hfields, heval⟩ := eval_storedValue depth h hb hfield
  have hquiet : Quiet m₁
      (m₁.ask (.call (.answer id) b.stored.insertMethod [.data (.string b.name), w])).2 :=
    .ask m₁ b.stored.find?_maker_insertMethod
      (Request.link?_call_eq_none b.stored.insertMethod_links_nothing)
  refine ⟨_, hq.trans hquiet, hfields, ?_⟩
  simp [Plan.seedStatement, Plan.insertValue, Plan.themeSet, Statement.exec, Expr.eval,
    Expr.evalAll, hset, heval, Value.receive, Value.ofLiteral, Expr.text]

theorem execAll_seedStatements (method : String) {id : Nat} {bs : List Binding} {m : Machine}
    (h : x.usesTheme = true) (hbs : ∀ b ∈ bs, b ∈ x.plan.graph.bindings.values)
    (hset : m.fields.lookup "_themeProperties" = some (.answer id))
    (hfields : ∀ b ∈ bs, (m.fields.lookup (Plan.backingField b)).isSome) (rest : List Node) :
    ∃ m', Quiet m m' ∧ m'.fields = m.fields
      ∧ Node.execAll (x.unit.invoke (depth + 1)) method
          ((bs.map Plan.seedStatement).map .stmt ++ rest) [] m
        = Node.execAll (x.unit.invoke (depth + 1)) method rest [] m' := by
  induction bs generalizing m with
  | nil => exact ⟨m, .refl m, rfl, rfl⟩
  | cons b bs ih =>
      obtain ⟨m₁, hq₁, hfields₁, hexec⟩ := exec_seedStatement depth method h
        (hbs b (List.mem_cons_self ..)) hset (hfields b (List.mem_cons_self ..))
      obtain ⟨m₂, hq₂, hfields₂, hrest⟩ := ih (m := m₁)
        (fun b' hb' => hbs b' (List.mem_cons_of_mem _ hb')) (hfields₁ ▸ hset)
        (fun b' hb' => hfields₁ ▸ hfields b' (List.mem_cons_of_mem _ hb'))
      refine ⟨m₂, hq₁.trans hq₂, hfields₂.trans hfields₁, ?_⟩
      rw [← hrest]
      exact Node.execAll_cons_none (by rw [Node.exec, hexec])

theorem invoke_ensureTheme (h : x.usesTheme = true) {m : Machine} (hm : Ready x m.fields) :
    ∃ w m', IsAnswer w ∧ Quiet m m'
      ∧ x.unit.invoke (depth + 2) "EnsureThemeProperties" [] m = .ok (w, m') := by
  have hfind := Parts.method?_ensureTheme h
  obtain ⟨v, hv, rfl | ⟨id, rfl⟩⟩ := hm.theme h
  · obtain ⟨c, hc, hcompositor⟩ := hm.compositor
    -- the set is made and put into its field, then the bindings go into it
    let made := (m.ask (.call c "CreatePropertySet" [])).2
    let kept : Machine :=
      { made with fields := made.fields.put "_themeProperties" (.answer m.next) }
    have hset : kept.fields.lookup "_themeProperties" = some (.answer m.next) :=
      Store.lookup_put_self (by simp [made, hv])
    have hmade : Quiet m made := .ask m rfl (Request.link?_call_eq_none (by decide))
    have hkept : Quiet made kept :=
      ⟨rfl, rfl, rfl, Nat.le_refl _, fun name hname => Store.lookup_put_of_ne hname,
        fun _ => ⟨_, hset, .inr ⟨_, rfl⟩⟩⟩
    have hready := (hm.quiet hmade).quiet hkept
    obtain ⟨m', hq, hfields, hseeds⟩ := execAll_seedStatements depth "EnsureThemeProperties" h
      (fun _ hb => hb) hset (hready.backing h) [.stmt (.ret (some Plan.themeSet))]
    have hassign : Node.exec (x.unit.invoke (depth + 1)) "EnsureThemeProperties"
        (.stmt (.assign "_themeProperties" (Plan.create "CreatePropertySet" []))) [] m
          = .ok ⟨none, [], kept⟩ := by
      have hreply : (Request.call c "CreatePropertySet" []).reply m.next = .answer m.next := rfl
      simp [Node.exec, Statement.exec, Plan.create, Expr.eval, Expr.evalAll, hcompositor,
        Value.receive_of_ne_null hc, Statement.assignTo, hv, kept, made, hreply]
    have hreturn : Node.execAll (x.unit.invoke (depth + 1)) "EnsureThemeProperties"
        [.stmt (.ret (some Plan.themeSet))] [] m' = .ok ⟨some (.answer m.next), [], m'⟩ := by
      simp [Node.execAll, Node.exec, Statement.exec, Plan.themeSet, Expr.eval, hfields, hset]
    have hrun := (Plan.execAll_keptNode_null hv _).trans
      ((Node.execAll_cons_none hassign).trans (hseeds.trans hreturn))
    exact ⟨.answer m.next, m', ⟨_, rfl⟩, (hmade.trans hkept).trans hq,
      ClassUnit.invoke_ordinary hfind hrun⟩
  · exact ⟨_, m, ⟨id, rfl⟩, .refl m, ClassUnit.invoke_ordinary hfind
      (Plan.execAll_keptNode hv (by simp) _)⟩

theorem evaluates_theme {P : Store → Prop} (h : x.usesTheme = true) :
    Evaluates x P (.selfCall "EnsureThemeProperties" []) IsAnswer := by
  intro depth hdepth locals m _ _ hm
  obtain ⟨depth, rfl⟩ := Nat.exists_eq_add_of_le' hdepth
  obtain ⟨w, m', hw, hq, hcall⟩ := invoke_ensureTheme depth h hm
  exact ⟨w, m', hw, hq, by simp [Expr.eval, Expr.evalAll, hcall]⟩

end Calls

end Scenograph
