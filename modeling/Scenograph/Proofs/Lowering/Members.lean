import Mathlib.Tactic.SplitIfs
import Scenograph.Proofs.Composition.Bindings
import Scenograph.Proofs.Lowering.Totality

namespace Scenograph

namespace ClassUnit

def fieldNames (u : ClassUnit) : List String :=
  u.fields.map (·.name)

def methodNames (u : ClassUnit) : List String :=
  (u.methods.filter (!·.isConstructor)).map (·.name)

def accessorNames (u : ClassUnit) : List String :=
  u.accessors.map (·.name)

end ClassUnit

namespace Plan

def coreFields (usesTheme : Bool) : List String :=
  "_c" :: "_root" :: if usesTheme then ["_themeProperties"] else []

def coreMethods (p : Plan) (usesTheme : Bool) : List String :=
  "RootVisual" :: "Duration" :: "Size" ::
    if usesTheme then
      "EnsureThemeProperties" ::
        if p.graph.bindings.values.any convertsColor then ["ColorAsVector4"] else []
    else []

theorem coreFields_sublist (usesTheme : Bool) : (coreFields usesTheme).Sublist fixedFields := by
  cases usesTheme <;> decide

end Plan

theorem Plan.checkBindings_eq_ok {p : Plan} :
    p.checkBindings = .ok () ↔ ∀ b ∈ p.graph.bindings.values,
      p.clashes b.name = false ∧ p.target.language.isReserved b.name = false := by
  have hflaw : ∀ b, p.bindingFlaw? b = none
      ↔ p.clashes b.name = false ∧ p.target.language.isReserved b.name = false := by
    intro b
    rw [bindingFlaw?]
    split_ifs <;> simp_all
  simp only [← hflaw]
  rw [checkBindings]
  split
  · next fault hfault =>
      obtain ⟨b, hb, hflaw⟩ := List.exists_of_findSome?_eq_some hfault
      constructor
      · intro h
        cases h
      · intro h
        simp [h b hb] at hflaw
  · next hnone => simpa using hnone

namespace Parts

variable {x : Parts} {g : Graph} {t : Target}

def bindingNames (x : Parts) : List String :=
  x.plan.graph.bindings.values.map (·.name)

def backingFields (x : Parts) : List String :=
  x.plan.graph.bindings.values.map Plan.backingField

theorem coreMethods_eq (x : Parts) :
    (x.plan.getterMethods x.ticks ++ x.plan.themeMethodList x.usesTheme).map (·.name)
      = x.plan.coreMethods x.usesTheme := by
  rw [Plan.themeMethodList, Plan.coreMethods]
  cases x.usesTheme with
  | false => rfl
  | true => cases x.plan.graph.bindings.values.any Plan.convertsColor <;> rfl

theorem coreMethods_sublist (x : Parts) :
    (x.plan.coreMethods x.usesTheme).Sublist Plan.fixedMembers := by
  rw [← x.coreMethods_eq]
  exact x.fixed_names

theorem not_clashes (hx : x.Of g t) {b : Binding} (hb : b ∈ x.plan.graph.bindings.values) :
    x.plan.clashes b.name = false :=
  (Plan.checkBindings_eq_ok.1 hx.bindings b hb).1

theorem binding_names (hx : x.Of g t) {b : Binding} (hb : b ∈ x.plan.graph.bindings.values) :
    b.name ≠ t.className ∧ b.name ∉ Plan.fixedMembers ∧ b.name ∉ Plan.fixedFields
      ∧ b.name ∉ x.backingFields ∧ ∀ y ∈ x.plan.names, y.2 ≠ b.name := by
  have hclash := x.not_clashes hx hb
  simp only [Plan.clashes, Bool.or_eq_false_iff, beq_eq_false_iff_ne, hx.planned.target] at hclash
  obtain ⟨⟨⟨⟨hclass, hmembers⟩, hfields⟩, hbacking⟩, hnames⟩ := hclash
  refine ⟨hclass, by simpa using hmembers, by simpa using hfields,
    by simpa [backingFields] using hbacking, ?_⟩
  simpa [List.any_eq_false] using hnames

theorem usesTheme_of_binding (hx : x.Of g t) {b : Binding}
    (hb : b ∈ x.plan.graph.bindings.values) : x.usesTheme = true := by
  have htheme := hx.theme
  rw [hx.planned.graph] at hb
  have hnonempty : g.bindings.isEmpty = false := by
    cases hentries : g.bindings.entries with
    | nil => simp [Catalog.values, hentries] at hb
    | cons entry rest => simp [Catalog.isEmpty, hentries]
  rw [Graph.usesTheme, hnonempty] at htheme
  exact (Except.ok.inj htheme).symm

theorem values_eq_nil (hx : x.Of g t) (htheme : x.usesTheme = false) :
    x.plan.graph.bindings.values = [] := by
  apply List.eq_nil_iff_forall_not_mem.2
  intro b hb
  rw [usesTheme_of_binding hx hb] at htheme
  cases htheme

theorem classFields_names (hx : x.Of g t) :
    (x.plan.classFields x.usesTheme).map (·.name)
      = Plan.coreFields x.usesTheme ++ x.backingFields := by
  cases htheme : x.usesTheme with
  | true => simp [Plan.classFields, Plan.coreFields, backingFields]
  | false =>
      have hnone := values_eq_nil hx htheme
      simp [Plan.classFields, Plan.coreFields, backingFields, hnone]

theorem fieldNames_eq (hx : x.Of g t) :
    x.unit.fieldNames
      = Plan.coreFields x.usesTheme ++ x.backingFields ++ x.sharedFields.map (·.name) := by
  rw [ClassUnit.fieldNames, unit, List.map_append, classFields_names hx]

theorem accessorNames_eq (hx : x.Of g t) : x.unit.accessorNames = x.bindingNames := by
  cases htheme : x.usesTheme with
  | true =>
      simp [ClassUnit.accessorNames, unit, Plan.accessorList, bindingNames, htheme,
        Plan.bindingAccessor]
  | false =>
      have hnone := values_eq_nil hx htheme
      simp [ClassUnit.accessorNames, unit, Plan.accessorList, bindingNames, htheme, hnone]

theorem isConstructor_fixed (x : Parts) :
    ∀ m ∈ x.plan.getterMethods x.ticks ++ x.plan.themeMethodList x.usesTheme,
      m.isConstructor = false := by
  rw [Plan.themeMethodList]
  cases x.usesTheme with
  | false => simp [Plan.getterMethods, Plan.getterMethod, Plan.ordinary]
  | true =>
      cases x.plan.graph.bindings.values.any Plan.convertsColor <;>
        simp [Plan.getterMethods, Plan.getterMethod, Plan.ordinary, Plan.ensureThemeMethod,
          Plan.colorMethod]

theorem factory_name (hx : x.Of g t) {m : Method} (hm : m ∈ x.factories) :
    m.isConstructor = false ∧ ∃ i, x.plan.nameOf i = .ok m.name := by
  obtain ⟨i, _, hfactory⟩ := exists_of_mem_right hx.factories hm
  obtain ⟨o, name, body, _, hname, _, rfl⟩ := Plan.factory_eq_ok hfactory
  exact ⟨rfl, i, hname⟩

theorem exists_factory (hx : x.Of g t) {i : Nat} {name : String}
    (h : x.plan.nameOf i = .ok name) : ∃ m ∈ x.factories, m.name = name := by
  obtain ⟨m, hm, hfactory⟩ := exists_of_mem_left hx.factories (hx.planned.mem_order_of_nameOf h)
  obtain ⟨o, other, body, _, hother, _, rfl⟩ := Plan.factory_eq_ok hfactory
  cases h.symm.trans hother
  exact ⟨_, hm, rfl⟩

theorem methodNames_eq (hx : x.Of g t) :
    x.unit.methodNames = x.plan.coreMethods x.usesTheme ++ x.factories.map (·.name) := by
  have hall : ∀ m ∈ x.plan.getterMethods x.ticks ++ x.plan.themeMethodList x.usesTheme
      ++ x.factories, (!m.isConstructor) = true := by
    intro m hm
    rcases List.mem_append.1 hm with hm | hm
    · simp [x.isConstructor_fixed m hm]
    · simp [(factory_name hx hm).1]
  rw [ClassUnit.methodNames, unit, List.filter_cons_of_neg (by simp [Plan.constructorMethod]),
    List.filter_eq_self.2 hall, List.map_append, coreMethods_eq]

theorem mem_methodNames (hx : x.Of g t) {name : String} :
    name ∈ x.unit.methodNames ↔
      name ∈ x.plan.coreMethods x.usesTheme ∨ ∃ i, x.plan.nameOf i = .ok name := by
  rw [methodNames_eq hx, List.mem_append]
  refine or_congr_right ⟨fun h => ?_, fun ⟨i, h⟩ => ?_⟩
  · obtain ⟨m, hm, rfl⟩ := List.mem_map.1 h
    exact (factory_name hx hm).2
  · exact List.mem_map.2 (exists_factory hx h)

theorem mem_fieldNames (hx : x.Of g t) {name : String} :
    name ∈ x.unit.fieldNames ↔
      name ∈ Plan.coreFields x.usesTheme ∨ name ∈ x.backingFields
        ∨ ∃ i factory, i ∈ x.plan.shared ∧ x.plan.nameOf i = .ok factory
          ∧ Plan.cacheField factory = name := by
  rw [fieldNames_eq hx, List.mem_append, List.mem_append, or_assoc]
  refine or_congr_right (or_congr_right ⟨fun h => ?_, fun ⟨i, factory, hi, hname, h⟩ => ?_⟩)
  · obtain ⟨f, hf, rfl⟩ := List.mem_map.1 h
    obtain ⟨i, factory, hi, hname, hfield, _⟩ := hx.mem_sharedFields hf
    exact ⟨i, factory, hi, hname, hfield.symm⟩
  · obtain ⟨f, hf, hfield⟩ := hx.exists_sharedField hi hname
    exact List.mem_map.2 ⟨f, hf, hfield.trans h⟩

theorem factoryNames_nodup (hx : x.Of g t) : (x.factories.map (·.name)).Nodup := by
  refine nodup_map_of_forall₂ hx.factories hx.planned.nodup ?_
  intro i j m m' hm hm' heq
  obtain ⟨_, name, _, _, hname, _, rfl⟩ := Plan.factory_eq_ok hm
  obtain ⟨_, name', _, _, hname', _, rfl⟩ := Plan.factory_eq_ok hm'
  have heq : name = name' := heq
  exact hx.planned.nameOf_injective hname (heq ▸ hname')

theorem factoryNames_not_fixed (hx : x.Of g t) {m : Method} (hm : m ∈ x.factories) :
    m.name ∉ Plan.fixedMembers := by
  obtain ⟨i, hname⟩ := (factory_name hx hm).2
  obtain ⟨kind, n, hn⟩ := hx.planned.exists_name_eq hname
  rw [hn]
  exact Plan.factoryName_not_fixed kind n

theorem methodNames_nodup (hx : x.Of g t) : x.unit.methodNames.Nodup := by
  have hfixed := x.coreMethods_sublist.nodup (by decide)
  rw [methodNames_eq hx]
  refine List.nodup_append.2 ⟨hfixed, factoryNames_nodup hx, ?_⟩
  rintro a ha b hb rfl
  obtain ⟨m, hm, rfl⟩ := List.mem_map.1 hb
  exact factoryNames_not_fixed hx hm (x.coreMethods_sublist.subset ha)

theorem backingFields_nodup (hx : x.Of g t) (hnamed : g.bindings.Named) :
    x.backingFields.Nodup := by
  have hnames : (x.plan.graph.bindings.values.map (·.name)).Nodup := by
    rw [hx.planned.graph]
    exact hnamed.names
  have hpairs := List.pairwise_map.1 hnames
  refine List.pairwise_map.2 (hpairs.imp fun hne heq => hne ?_)
  exact Plan.backingField_injective heq

theorem sharedFields_nodup (hx : x.Of g t) : (x.sharedFields.map (·.name)).Nodup := by
  refine nodup_map_of_forall₂ hx.sharedFields (hx.planned.nodup.filter _) ?_
  intro i j f f' hf hf' heq
  obtain ⟨_, name, _, hname, rfl⟩ := Plan.sharedField_eq_ok hf
  obtain ⟨_, name', _, hname', rfl⟩ := Plan.sharedField_eq_ok hf'
  exact hx.planned.eq_of_cacheField_eq hname hname' heq

theorem sharedFields_ne (hx : x.Of g t) :
    ∀ a ∈ Plan.coreFields x.usesTheme ++ x.backingFields,
      ∀ b ∈ x.sharedFields.map (·.name), a ≠ b := by
  rintro a ha b hb rfl
  obtain ⟨f, hf, hfa⟩ := List.mem_map.1 hb
  obtain ⟨i, factory, _, hname, hfield, _⟩ := hx.mem_sharedFields hf
  rw [hfield] at hfa
  rcases List.mem_append.1 ha with ha | ha
  · exact hx.planned.cacheField_ne_fixed hname ((Plan.coreFields_sublist _).subset ha) hfa
  · obtain ⟨binding, _, hbacking⟩ := List.mem_map.1 ha
    exact hx.planned.cacheField_ne_backingField hname binding (hfa.trans hbacking.symm)

theorem fieldNames_nodup_iff (hx : x.Of g t) (hnamed : g.bindings.Named) :
    x.unit.fieldNames.Nodup ↔ ∀ b ∈ x.plan.graph.bindings.values, b.name ≠ "Properties" := by
  have hcore := (Plan.coreFields_sublist x.usesTheme).nodup (by decide)
  rw [fieldNames_eq hx, List.nodup_append, List.nodup_append]
  constructor
  · rintro ⟨⟨_, _, hdisjoint⟩, _, _⟩ b hb hname
    have htheme := usesTheme_of_binding hx hb
    refine hdisjoint "_themeProperties" ?_ (Plan.backingField b) (List.mem_map_of_mem hb) ?_
    · simp [Plan.coreFields, htheme]
    · rw [Plan.backingField, hname]
      rfl
  · intro hproperties
    -- of the core fields only that of the property set begins like the field of a binding
    refine ⟨⟨hcore, backingFields_nodup hx hnamed, ?_⟩, sharedFields_nodup hx, sharedFields_ne hx⟩
    rintro a ha b hb rfl
    obtain ⟨binding, hbinding, rfl⟩ := List.mem_map.1 hb
    exact hproperties binding hbinding
      ((Plan.backingField_fixed_iff binding).1 ((Plan.coreFields_sublist _).subset ha))

theorem fieldNames_head (hx : x.Of g t) : ∀ name ∈ x.unit.fieldNames, name.toList.head? = some '_' := by
  intro name h
  rcases (mem_fieldNames hx).1 h with h | h | ⟨_, factory, _, _, rfl⟩
  · exact Plan.fixedFields_head name ((Plan.coreFields_sublist _).subset h)
  · obtain ⟨binding, _, rfl⟩ := List.mem_map.1 h
    exact Plan.backingField_head binding
  · exact Plan.cacheField_head factory

theorem fieldNames_ne_methodNames (hx : x.Of g t) :
    ∀ a ∈ x.unit.fieldNames, ∀ b ∈ x.unit.methodNames, a ≠ b := by
  rintro a ha b hb rfl
  have hfield := fieldNames_head hx a ha
  rcases (mem_methodNames hx).1 hb with hb | ⟨i, hname⟩
  · exact Plan.fixedMembers_head a (x.coreMethods_sublist.subset hb) hfield
  · obtain ⟨kind, n, rfl⟩ := hx.planned.exists_name_eq hname
    exact Plan.factoryName_head kind n hfield

theorem methodNames_ne_bindingNames (hx : x.Of g t) :
    ∀ a ∈ x.unit.methodNames, ∀ b ∈ x.bindingNames, a ≠ b := by
  rintro a ha b hb rfl
  obtain ⟨binding, hbinding, rfl⟩ := List.mem_map.1 hb
  obtain ⟨_, hmembers, _, _, hnames⟩ := binding_names hx hbinding
  rcases (mem_methodNames hx).1 ha with ha | ⟨i, hname⟩
  · exact hmembers (x.coreMethods_sublist.subset ha)
  · exact hnames _ (Plan.mem_names_of_nameOf hname) rfl

theorem fieldNames_ne_bindingNames_iff (hx : x.Of g t) :
    (∀ a ∈ x.unit.fieldNames, ∀ b ∈ x.bindingNames, a ≠ b)
      ↔ ∀ i factory, i ∈ x.plan.shared → x.plan.nameOf i = .ok factory →
        ∀ b ∈ x.plan.graph.bindings.values, b.name ≠ Plan.cacheField factory := by
  constructor
  · intro h i factory hi hname b hb heq
    have hmem : Plan.cacheField factory ∈ x.unit.fieldNames :=
      (mem_fieldNames hx).2 (.inr (.inr ⟨i, factory, hi, hname, rfl⟩))
    exact h _ hmem b.name (List.mem_map_of_mem hb) heq.symm
  · rintro h a ha b hb rfl
    obtain ⟨binding, hbinding, rfl⟩ := List.mem_map.1 hb
    obtain ⟨_, _, hfixed, hbacking, _⟩ := binding_names hx hbinding
    rcases (mem_fieldNames hx).1 ha with ha | ha | ⟨i, factory, hi, hname, heq⟩
    · exact hfixed ((Plan.coreFields_sublist _).subset ha)
    · exact hbacking ha
    · exact h i factory hi hname binding hbinding heq.symm

theorem nodup_members_iff (hx : x.Of g t) (hnamed : g.bindings.Named) (name : String)
    (hname : name ∉ x.bindingNames) :
    (name :: (x.unit.fieldNames ++ x.unit.methodNames ++ x.unit.accessorNames)).Nodup ↔
      name ∉ x.unit.fieldNames ∧ name ∉ x.unit.methodNames
        ∧ (∀ b ∈ x.plan.graph.bindings.values, b.name ≠ "Properties")
        ∧ ∀ a ∈ x.unit.fieldNames, ∀ b ∈ x.bindingNames, a ≠ b := by
  rw [accessorNames_eq hx, List.nodup_cons, List.nodup_append, List.nodup_append,
    fieldNames_nodup_iff hx hnamed]
  simp only [List.mem_append, not_or]
  constructor
  · rintro ⟨⟨⟨hfields, hmethods⟩, _⟩, ⟨hproperties, _, _⟩, _, hdisjoint⟩
    exact ⟨hfields, hmethods, hproperties, fun a ha => hdisjoint a (.inl ha)⟩
  · rintro ⟨hfields, hmethods, hproperties, hdisjoint⟩
    have hnames : x.bindingNames.Nodup := by
      rw [bindingNames, hx.planned.graph]
      exact hnamed.names
    refine ⟨⟨⟨hfields, hmethods⟩, hname⟩,
      ⟨hproperties, methodNames_nodup hx, fieldNames_ne_methodNames hx⟩, hnames, ?_⟩
    rintro a (ha | ha)
    · exact hdisjoint a ha
    · exact methodNames_ne_bindingNames hx a ha

end Parts

theorem members_nodup_iff {g : Graph} {t : Target} {u : ClassUnit} (hu : g.lower t = .ok u)
    {bs : List Binding} (hbs : Bindings.ofList bs = .ok g.bindings) :
    ∃ p usesTheme, Plan.ofGraph t g = .ok p ∧ g.usesTheme = .ok usesTheme ∧
      ((t.className :: (u.fieldNames ++ u.methodNames ++ u.accessorNames)).Nodup ↔
        t.className ∉ Plan.coreFields usesTheme ∧ t.className ∉ p.coreMethods usesTheme
          ∧ (∀ i, p.nameOf i ≠ .ok t.className)
          ∧ (∀ b ∈ g.bindings.values, Plan.backingField b ≠ t.className ∧ b.name ≠ "Properties")
          ∧ ∀ i factory, i ∈ p.shared → p.nameOf i = .ok factory →
            Plan.cacheField factory ≠ t.className
              ∧ ∀ b ∈ g.bindings.values, b.name ≠ Plan.cacheField factory) := by
  obtain ⟨x, hx, rfl⟩ := Graph.lower_parts hu
  refine ⟨x.plan, x.usesTheme, hx.plan, hx.theme, ?_⟩
  have hclass : t.className ∉ x.bindingNames := by
    intro hmem
    obtain ⟨b, hb, heq⟩ := List.mem_map.1 hmem
    exact (Parts.binding_names hx hb).1 heq
  rw [Parts.nodup_members_iff hx (Bindings.named_of_ofList hbs) _ hclass,
    Parts.fieldNames_ne_bindingNames_iff hx, Parts.mem_fieldNames hx, Parts.mem_methodNames hx,
    ← hx.planned.graph]
  constructor
  · rintro ⟨hfields, hmethods, hproperties, hcaches⟩
    simp only [not_or, not_exists] at hfields hmethods
    refine ⟨hfields.1, hmethods.1, hmethods.2, fun b hb => ⟨fun heq => ?_, hproperties b hb⟩, ?_⟩
    · exact hfields.2.1 (List.mem_map.2 ⟨b, hb, heq⟩)
    · intro i factory hi hname
      exact ⟨fun heq => hfields.2.2 i factory ⟨hi, hname, heq⟩, hcaches i factory hi hname⟩
  · rintro ⟨hfields, hmethods, hfactories, hbindings, hcaches⟩
    refine ⟨?_, ?_, fun b hb => (hbindings b hb).2,
      fun i factory hi hname => (hcaches i factory hi hname).2⟩
    · rintro (hmem | hmem | ⟨i, factory, hi, hname, heq⟩)
      · exact hfields hmem
      · obtain ⟨b, hb, heq⟩ := List.mem_map.1 hmem
        exact (hbindings b hb).1 heq
      · exact (hcaches i factory hi hname).1 heq
    · rintro (hmem | ⟨i, hname⟩)
      · exact hmethods hmem
      · exact hfactories i hname

def propertiesBinding : Binding :=
  ⟨"Properties", "Properties", .scalar, .scalar, .scalar 0⟩

def propertiesScene : Graph where
  objects := [.spriteVisual {} none []]
  root := some 0
  bindings := ⟨[("Properties", propertiesBinding)]⟩

def propertiesTarget : Target where
  language := .csharp
  size := ⟨1, 1⟩
  nanoseconds := 100

def propertiesPlan : Plan :=
  ⟨propertiesTarget, propertiesScene, [0], [(0, "SpriteVisual_0")], []⟩

theorem ofList_propertiesBinding :
    Bindings.ofList [propertiesBinding] = .ok propertiesScene.bindings :=
  Bindings.ofList_singleton (by decide +kernel) rfl rfl

theorem lower_propertiesScene : ∃ u, propertiesScene.lower propertiesTarget = .ok u := by
  have hvalid : propertiesScene.validate = .ok () := Graph.validate_of_checks rfl rfl (by cbv)
  have hplan : Plan.ofGraph propertiesTarget propertiesScene = .ok propertiesPlan :=
    Plan.ofGraph_eq hvalid (by cbv) (by decide) rfl
  have hcheck : propertiesPlan.checkBindings = .ok () := by decide +kernel
  exact Graph.lower_ok hplan hcheck ⟨1, rfl⟩

theorem members_nodup_iff_propertiesScene :
    ∃ u, propertiesScene.lower propertiesTarget = .ok u
      ∧ Bindings.ofList [propertiesBinding] = .ok propertiesScene.bindings
      ∧ (∃ p usesTheme, Plan.ofGraph propertiesTarget propertiesScene = .ok p
        ∧ propertiesScene.usesTheme = .ok usesTheme ∧
        ((propertiesTarget.className
            :: (u.fieldNames ++ u.methodNames ++ u.accessorNames)).Nodup ↔
          propertiesTarget.className ∉ Plan.coreFields usesTheme
            ∧ propertiesTarget.className ∉ p.coreMethods usesTheme
            ∧ (∀ i, p.nameOf i ≠ .ok propertiesTarget.className)
            ∧ (∀ b ∈ propertiesScene.bindings.values,
              Plan.backingField b ≠ propertiesTarget.className ∧ b.name ≠ "Properties")
            ∧ ∀ i factory, i ∈ p.shared → p.nameOf i = .ok factory →
              Plan.cacheField factory ≠ propertiesTarget.className
                ∧ ∀ b ∈ propertiesScene.bindings.values, b.name ≠ Plan.cacheField factory))
      ∧ ¬ (propertiesTarget.className
        :: (u.fieldNames ++ u.methodNames ++ u.accessorNames)).Nodup := by
  obtain ⟨u, hu⟩ := lower_propertiesScene
  have hiff := members_nodup_iff hu ofList_propertiesBinding
  refine ⟨u, hu, ofList_propertiesBinding, hiff, fun hnodup => ?_⟩
  obtain ⟨_, _, _, _, hclash⟩ := hiff
  obtain ⟨_, _, _, hbindings, _⟩ := hclash.1 hnodup
  exact (hbindings propertiesBinding (List.mem_singleton_self _)).2 rfl

end Scenograph
