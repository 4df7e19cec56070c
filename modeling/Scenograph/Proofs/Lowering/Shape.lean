import Scenograph.Lowering.ClassUnit
import Scenograph.Proofs.Lowering.Plan

namespace Scenograph

theorem TreeDraft.run_adds {root : List Node} (statements : List Statement) (rest : List Step) :
    TreeDraft.run ⟨root, []⟩ (statements.map .add ++ rest)
      = TreeDraft.run ⟨root ++ statements.map .stmt, []⟩ rest := by
  induction statements generalizing root with
  | nil => simp
  | cons s statements ih =>
      have hstep : TreeDraft.run ⟨root, []⟩ ((s :: statements).map .add ++ rest)
          = TreeDraft.run ⟨root ++ [.stmt s], []⟩ (statements.map .add ++ rest) := rfl
      rw [hstep, ih]
      simp

namespace Plan

variable {g : Graph} {t : Target} {p : Plan}

def ordinary (name : String) (returns : TypeRef) (nodes : List Node) : Method where
  name := name
  parameters := []
  returns := returns
  body := { nodes }
  comment := none
  visibility := .hidden
  isConstructor := false
  isStatic := false

theorem method_eq_ok {name : String} {returns : TypeRef} {steps : List Step} {nodes : List Node}
    (h : TreeDraft.run {} steps = .ok ⟨nodes, []⟩) :
    method { name := some name, returns := some returns } steps
      = .ok (ordinary name returns nodes) := by
  simp [method, MethodDraft.run, h, MethodDraft.finish, TreeDraft.finish, built, ordinary]

def keptNode (field : String) : Node :=
  .block (some (.notNull (.var field))) [.stmt (.ret (some (.var field)))]

def factoryNodes (shared : Bool) (name : String) (body : List Statement) : List Node :=
  (if shared then [keptNode (cacheField name)] else []) ++ body.map .stmt
    ++ (if shared then [.stmt (.assign (cacheField name) result)] else [])
    ++ [.stmt (.ret (some result))]

theorem run_factorySteps (shared : Bool) (name : String) (body : List Statement) :
    TreeDraft.run {} (factorySteps shared name body) = .ok ⟨factoryNodes shared name body, []⟩ := by
  cases shared with
  | false =>
      simp only [factorySteps, factoryNodes, Bool.false_eq_true, if_false, List.nil_append,
        List.append_nil]
      rw [TreeDraft.run_adds]
      rfl
  | true =>
      have hguard : ∀ rest, TreeDraft.run {} ([.enter (some (.notNull (.var (cacheField name)))),
          .add (.ret (some (.var (cacheField name)))), .leave] ++ rest)
            = TreeDraft.run ⟨[keptNode (cacheField name)], []⟩ rest := fun _ => rfl
      simp only [factorySteps, if_true, List.append_assoc]
      rw [hguard, TreeDraft.run_adds]
      rfl

theorem factory_eq_ok {i : Nat} {m : Method} (h : p.factory i = .ok m) :
    ∃ o name body, p.graph.objects[i]? = some o ∧ p.nameOf i = .ok name
      ∧ p.objectStatements i o = .ok body
      ∧ m = ordinary name (p.objectType o.kind) (factoryNodes (p.shared.contains i) name body) := by
  rw [factory] at h
  obtain ⟨o, ho, h⟩ := bind_eq_ok.1 h
  obtain ⟨name, hname, h⟩ := bind_eq_ok.1 h
  obtain ⟨body, hbody, h⟩ := bind_eq_ok.1 h
  rw [method_eq_ok (run_factorySteps _ _ _)] at h
  cases h
  exact ⟨o, name, body, Graph.get_eq_ok.1 ho, hname, hbody, rfl⟩

theorem cacheFields_eq (p : Plan) (i : Nat) : p.cacheFields i =
    ([i].filter p.shared.contains).mapM p.sharedField := by
  rw [cacheFields]
  cases h : p.shared.contains i with
  | false => simp only [Bool.false_eq_true, if_false, List.filter, h, List.mapM_nil]
  | true => simp only [if_true, List.filter, h, List.mapM_cons, List.mapM_nil, pure_bind]

theorem foldlM_addFactory {order : List Nat} {m m' : Members} :
    order.foldlM p.addFactory m = .ok m' ↔
      ∃ fields factories, (order.filter p.shared.contains).mapM p.sharedField = .ok fields
        ∧ order.mapM p.factory = .ok factories
        ∧ m' = ⟨m.fields ++ fields, m.methods ++ factories⟩ := by
  induction order generalizing m with
  | nil => simp [eq_comm]
  | cons i rest ih =>
      rw [List.foldlM_cons, bind_eq_ok, ← List.singleton_append, List.filter_append,
        List.mapM_append, List.singleton_append, List.mapM_cons, ← cacheFields_eq]
      constructor
      · rintro ⟨next, hnext, hrest⟩
        obtain ⟨own, hown, hnext⟩ := bind_eq_ok.1 hnext
        obtain ⟨factory, hfactory, hnext⟩ := bind_eq_ok.1 hnext
        cases hnext
        obtain ⟨fields, factories, hfields, hfactories, rfl⟩ := ih.1 hrest
        refine ⟨own ++ fields, factory :: factories, ?_, ?_, ?_⟩
        · simp [hown, hfields]
        · simp [hfactory, hfactories]
        · simp
      · rintro ⟨fields, factories, hfields, hfactories, rfl⟩
        obtain ⟨own, hown, hfields⟩ := bind_eq_ok.1 hfields
        obtain ⟨fields, hrest, hfields⟩ := bind_eq_ok.1 hfields
        obtain ⟨factory, hfactory, hfactories⟩ := bind_eq_ok.1 hfactories
        obtain ⟨factories, hothers, hfactories⟩ := bind_eq_ok.1 hfactories
        cases hfields
        cases hfactories
        refine ⟨⟨m.fields ++ own, m.methods ++ [factory]⟩, ?_, ?_⟩
        · simp [addFactory, hown, hfactory]
        · exact ih.2 ⟨fields, factories, hrest, hothers, by simp⟩

theorem sharedField_eq_ok {i : Nat} {f : Field} (h : p.sharedField i = .ok f) :
    ∃ o name, p.graph.objects[i]? = some o ∧ p.nameOf i = .ok name
      ∧ f = ⟨cacheField name, p.objectType o.kind, none⟩ := by
  rw [sharedField] at h
  obtain ⟨o, ho, h⟩ := bind_eq_ok.1 h
  obtain ⟨name, hname, h⟩ := bind_eq_ok.1 h
  cases h
  exact ⟨o, name, Graph.get_eq_ok.1 ho, hname, rfl⟩

theorem factoryCall_eq_ok {i : Nat} {e : Expr} (h : p.factoryCall i = .ok e) :
    ∃ name, p.nameOf i = .ok name ∧ e = .selfCall name [] := by
  rw [factoryCall] at h
  obtain ⟨name, hname, h⟩ := bind_eq_ok.1 h
  cases h
  exact ⟨name, hname, rfl⟩

def visualNames : List String :=
  ["CenterPoint", "Offset", "Size", "Opacity", "RotationAngleInDegrees", "Scale", "IsVisible"]

theorem mem_visualProperties {v : VisualProperties Float} {s : Statement}
    (h : s ∈ visualProperties v) : ∃ name ∈ visualNames, ∃ value, s = setOnResult name value := by
  simp only [visualProperties, List.mem_append, List.mem_map] at h
  rcases h with (((((⟨y, _, rfl⟩ | ⟨y, _, rfl⟩) | ⟨y, _, rfl⟩) | ⟨y, _, rfl⟩) | ⟨y, _, rfl⟩)
    | ⟨y, _, rfl⟩) | ⟨y, _, rfl⟩ <;> exact ⟨_, by simp [visualNames], _, rfl⟩

theorem mem_calling {α : Type} {f : α → Except Fault Statement} {items : List α} {target : α → Nat}
    (around : α → Expr → Statement)
    (hf : ∀ item, f item = do return around item (← p.factoryCall (target item)))
    {ss : List Statement} (h : items.mapM f = .ok ss) {s : Statement} (hs : s ∈ ss) :
    ∃ item e, p.factoryCall (target item) = .ok e ∧ s = around item e := by
  obtain ⟨item, _, hitem⟩ := exists_of_mem_right (mapM_eq_ok.1 h) hs
  rw [hf] at hitem
  obtain ⟨e, he, hitem⟩ := bind_eq_ok.1 hitem
  cases hitem
  exact ⟨item, e, he, rfl⟩

def constructorMethod (p : Plan) (factory : String) : Method where
  name := p.target.className
  parameters := [⟨"compositor", p.compositionType "Compositor"⟩]
  returns := .builtIn .void
  body := { nodes := [.stmt (.assign "_c" (.var "compositor")),
    .stmt (.assign "_root" (.selfCall factory []))] }
  comment := none
  visibility := .internal
  isConstructor := true
  isStatic := false

theorem constructor_eq_ok {root : Nat} {m : Method} (h : p.constructor root = .ok m) :
    ∃ factory, p.nameOf root = .ok factory ∧ m = p.constructorMethod factory := by
  rw [constructor] at h
  obtain ⟨e, he, h⟩ := bind_eq_ok.1 h
  obtain ⟨factory, hname, rfl⟩ := factoryCall_eq_ok he
  cases h
  exact ⟨factory, hname, rfl⟩

def getterMethod (name : String) (type : TypeRef) (value : Expr) (comment : String) : Method :=
  { ordinary name type [.stmt (.ret (some value))] with
    comment := some comment
    visibility := .exposed }

def getterMethods (p : Plan) (ticks : Int) : List Method :=
  [getterMethod "RootVisual" (p.compositionType "Visual") (.var "_root")
      "The root of the composition tree.",
    getterMethod "Duration" (.builtIn .timeSpan) (.lit (.timeSpan ticks))
      "Duration of the animation.",
    getterMethod "Size" (.builtIn .vector2) (.lit (.vector2 p.target.size))
      "Size of the animation canvas."]

theorem getters_eq_ok {ms : List Method} (h : p.getters = .ok ms) :
    ∃ ticks, p.target.ticks = .ok ticks ∧ ms = p.getterMethods ticks := by
  rw [getters] at h
  obtain ⟨_, hroot, h⟩ := bind_eq_ok.1 h
  obtain ⟨ticks, hticks, h⟩ := bind_eq_ok.1 h
  cases hroot
  cases h
  exact ⟨ticks, hticks, rfl⟩

def seedStatement (b : Binding) : Statement :=
  insertValue b (.var (backingField b))

def ensureThemeMethod (p : Plan) : Method :=
  ordinary "EnsureThemeProperties" (p.compositionType "CompositionPropertySet")
    ([keptNode "_themeProperties",
        .stmt (.assign "_themeProperties" (create "CreatePropertySet" []))]
      ++ (p.graph.bindings.values.map seedStatement).map .stmt ++ [.stmt (.ret (some themeSet))])

theorem ensureTheme_eq_ok : p.ensureTheme = .ok p.ensureThemeMethod := by
  apply method_eq_ok
  have hseeds : (p.graph.bindings.values.map fun b => Step.add (insertValue b (.var (backingField b))))
      = (p.graph.bindings.values.map seedStatement).map .add := by
    simp [seedStatement]
  have hguard : ∀ rest, TreeDraft.run {} ([.enter (some (.notNull themeSet)),
      .add (.ret (some themeSet)), .leave,
      .add (.assign "_themeProperties" (create "CreatePropertySet" []))] ++ rest)
        = TreeDraft.run ⟨[keptNode "_themeProperties",
            .stmt (.assign "_themeProperties" (create "CreatePropertySet" []))], []⟩ rest :=
    fun _ => rfl
  rw [hseeds, List.append_assoc, hguard, TreeDraft.run_adds]
  rfl

def colorMethod : Method :=
  { ordinary "ColorAsVector4" (.builtIn .vector4)
      [.stmt (.ret (some (.construct (.builtIn .vector4)
        [.field (.var "color") "R", .field (.var "color") "G", .field (.var "color") "B",
          .field (.var "color") "A"])))] with
    parameters := [⟨"color", .builtIn .color⟩]
    isStatic := true }

theorem colorAsVector4_eq_ok : colorAsVector4 = .ok colorMethod := rfl

def themeMethodList (p : Plan) (usesTheme : Bool) : List Method :=
  if usesTheme then
    p.ensureThemeMethod :: if p.graph.bindings.values.any convertsColor then [colorMethod] else []
  else []

theorem themeMethods_eq_ok (usesTheme : Bool) :
    p.themeMethods usesTheme = .ok (p.themeMethodList usesTheme) := by
  cases usesTheme with
  | false => rfl
  | true =>
      cases hany : p.graph.bindings.values.any convertsColor <;>
        simp [themeMethods, conversions, themeMethodList, ensureTheme_eq_ok, colorAsVector4_eq_ok,
          hany]

def bindingAccessor (b : Binding) : Accessor where
  name := b.name
  type := exposedType b.exposed
  field := backingField b
  setter := { nodes := [.stmt (.assign (backingField b) (.var "value")),
    .block (some (.notNull themeSet)) [.stmt (insertValue b (.var "value"))]] }

theorem accessor_eq_ok (b : Binding) : accessor b = .ok (bindingAccessor b) := rfl

def accessorList (p : Plan) (usesTheme : Bool) : List Accessor :=
  if usesTheme then p.graph.bindings.values.map bindingAccessor else []

theorem accessors_eq_ok (usesTheme : Bool) :
    p.accessors usesTheme = .ok (p.accessorList usesTheme) := by
  cases usesTheme with
  | false => rfl
  | true =>
      have h : ∀ bs : List Binding, bs.mapM accessor = .ok (bs.map bindingAccessor) := by
        intro bs
        rw [mapM_eq_ok, List.forall₂_map_right_iff, List.forall₂_same]
        exact fun b _ => accessor_eq_ok b
      simp [accessors, accessorList, h]

end Plan

structure Parts where
  plan : Plan
  usesTheme : Bool
  root : Nat
  rootFactory : String
  ticks : Int
  factories : List Method
  sharedFields : List Field
  assets : List String

namespace Parts

def unit (x : Parts) : ClassUnit where
  fields := x.plan.classFields x.usesTheme ++ x.sharedFields
  methods := x.plan.constructorMethod x.rootFactory
    :: (x.plan.getterMethods x.ticks ++ x.plan.themeMethodList x.usesTheme ++ x.factories)
  accessors := x.plan.accessorList x.usesTheme
  assets := x.assets

structure Of (x : Parts) (g : Graph) (t : Target) : Prop where
  plan : Plan.ofGraph t g = .ok x.plan
  bindings : x.plan.checkBindings = .ok ()
  theme : g.usesTheme = .ok x.usesTheme
  root : g.root = some x.root
  rootFactory : x.plan.nameOf x.root = .ok x.rootFactory
  ticks : t.ticks = .ok x.ticks
  factories : List.Forall₂ (fun i m => x.plan.factory i = .ok m) x.plan.order x.factories
  sharedFields : List.Forall₂ (fun i f => x.plan.sharedField i = .ok f)
    (x.plan.order.filter x.plan.shared.contains) x.sharedFields
  assets : g.referencedAssets = .ok x.assets

theorem Of.planned {x : Parts} {g : Graph} {t : Target} (hx : x.Of g t) : Plan.Planned t g x.plan :=
  Plan.ofGraph_planned hx.plan

theorem fixed_names (x : Parts) :
    ((x.plan.getterMethods x.ticks ++ x.plan.themeMethodList x.usesTheme).map (·.name)).Sublist
      Plan.fixedMembers := by
  rw [Plan.themeMethodList]
  cases x.usesTheme with
  | false => simp [Plan.getterMethods, Plan.getterMethod, Plan.ordinary, Plan.fixedMembers]
  | true =>
      cases x.plan.graph.bindings.values.any Plan.convertsColor <;>
        simp [Plan.getterMethods, Plan.getterMethod, Plan.ordinary, Plan.fixedMembers,
          Plan.ensureThemeMethod, Plan.colorMethod]

theorem Of.mem_sharedFields {x : Parts} {g : Graph} {t : Target} (hx : x.Of g t) {f : Field}
    (h : f ∈ x.sharedFields) :
    ∃ i name, i ∈ x.plan.shared ∧ x.plan.nameOf i = .ok name ∧ f.name = Plan.cacheField name
      ∧ f.init = none := by
  obtain ⟨i, hi, hfield⟩ := exists_of_mem_right hx.sharedFields h
  obtain ⟨o, name, _, hname, rfl⟩ := Plan.sharedField_eq_ok hfield
  exact ⟨i, name, List.contains_iff_mem.1 (List.mem_filter.1 hi).2, hname, rfl, rfl⟩

theorem Of.factory_mem {x : Parts} {g : Graph} {t : Target} (hx : x.Of g t) {i : Nat} {m : Method}
    (hi : i ∈ x.plan.order) (hm : x.plan.factory i = .ok m) : m ∈ x.unit.methods := by
  obtain ⟨m', hmem, hm'⟩ := exists_of_mem_left hx.factories hi
  cases hm.symm.trans hm'
  exact List.mem_cons_of_mem _ (List.mem_append_right _ hmem)

theorem Of.exists_sharedField {x : Parts} {g : Graph} {t : Target} (hx : x.Of g t) {i : Nat}
    {name : String} (hi : i ∈ x.plan.shared) (hname : x.plan.nameOf i = .ok name) :
    ∃ f ∈ x.sharedFields, f.name = Plan.cacheField name := by
  have hfilter : i ∈ x.plan.order.filter x.plan.shared.contains :=
    List.mem_filter.2 ⟨hx.planned.mem_order_of_nameOf hname, List.contains_iff_mem.2 hi⟩
  obtain ⟨f, hf, hfield⟩ := exists_of_mem_left hx.sharedFields hfilter
  obtain ⟨o, other, _, hother, rfl⟩ := Plan.sharedField_eq_ok hfield
  cases hname.symm.trans hother
  exact ⟨_, hf, rfl⟩

end Parts

theorem Graph.lower_parts {g : Graph} {t : Target} {u : ClassUnit} (h : g.lower t = .ok u) :
    ∃ x : Parts, x.Of g t ∧ u = x.unit := by
  rw [lower] at h
  obtain ⟨p, hp, h⟩ := bind_eq_ok.1 h
  obtain ⟨_, hbindings, h⟩ := bind_eq_ok.1 h
  obtain ⟨usesTheme, htheme, h⟩ := bind_eq_ok.1 h
  obtain ⟨root, hroot, h⟩ := bind_eq_ok.1 h
  obtain ⟨constructor, hconstructor, h⟩ := bind_eq_ok.1 h
  obtain ⟨getters, hgetters, h⟩ := bind_eq_ok.1 h
  rw [Plan.themeMethods_eq_ok, ok_bind, Plan.accessors_eq_ok, ok_bind] at h
  obtain ⟨members, hmembers, h⟩ := bind_eq_ok.1 h
  obtain ⟨assets, hassets, h⟩ := bind_eq_ok.1 h
  cases h
  obtain ⟨sharedFields, factories, hsharedFields, hfactories, rfl⟩ := Plan.foldlM_addFactory.1 hmembers
  obtain ⟨rootFactory, hfactory, rfl⟩ := Plan.constructor_eq_ok hconstructor
  obtain ⟨ticks, hticks, rfl⟩ := Plan.getters_eq_ok hgetters
  have htarget := (Plan.ofGraph_planned hp).target
  exact ⟨⟨p, usesTheme, root, rootFactory, ticks, factories, sharedFields, assets⟩,
    ⟨hp, hbindings, htheme, Graph.getRoot_eq_ok.1 hroot, hfactory, htarget ▸ hticks,
      mapM_eq_ok.1 hfactories, mapM_eq_ok.1 hsharedFields, hassets⟩, rfl⟩

theorem Parts.Of.lower_eq {x : Parts} {g : Graph} {t : Target} (hx : x.Of g t) :
    g.lower t = .ok x.unit := by
  have hcall : x.plan.factoryCall x.root = .ok (.selfCall x.rootFactory []) :=
    bind_eq_ok.2 ⟨_, hx.rootFactory, rfl⟩
  have hconstructor : x.plan.constructor x.root = .ok (x.plan.constructorMethod x.rootFactory) :=
    bind_eq_ok.2 ⟨_, hcall, rfl⟩
  have hticks : x.plan.target.ticks = .ok x.ticks := hx.planned.target ▸ hx.ticks
  have hgetters : x.plan.getters = .ok (x.plan.getterMethods x.ticks) :=
    bind_eq_ok.2 ⟨_, rfl, bind_eq_ok.2 ⟨_, hticks, rfl⟩⟩
  have hmembers (m : Plan.Members) : x.plan.order.foldlM x.plan.addFactory m
      = .ok ⟨m.fields ++ x.sharedFields, m.methods ++ x.factories⟩ :=
    Plan.foldlM_addFactory.2
      ⟨_, _, mapM_eq_ok.2 hx.sharedFields, mapM_eq_ok.2 hx.factories, rfl⟩
  rw [Graph.lower, hx.plan, ok_bind, hx.bindings, ok_bind, hx.theme, ok_bind,
    Graph.getRoot_eq_ok.2 hx.root, ok_bind, hconstructor, ok_bind, hgetters, ok_bind,
    Plan.themeMethods_eq_ok, ok_bind, Plan.accessors_eq_ok, ok_bind, hmembers, ok_bind, hx.assets]
  rfl

end Scenograph
