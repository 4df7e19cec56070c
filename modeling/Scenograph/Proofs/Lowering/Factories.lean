import Scenograph.Proofs.Catalog
import Scenograph.Proofs.Lowering.Bodies
import Scenograph.Proofs.Lowering.Members
import Scenograph.Proofs.Lowering.Totality

namespace Scenograph

namespace Plan

section Nodes

variable (shared : Bool) (name : String) {body : List Statement}

theorem guarded_factoryNodes (body : List Statement) :
    (∃ rest, factoryNodes shared name body = keptNode (cacheField name) :: rest)
      ↔ shared = true := by
  constructor
  · rintro ⟨rest, h⟩
    cases shared with
    | true => rfl
    | false =>
        have hhead := congrArg List.head? h
        cases body <;> simp [factoryNodes, keptNode] at hhead
  · rintro rfl
    exact ⟨_, rfl⟩

theorem kept_factoryNodes (hbody : ∀ field value, .assign field value ∉ body) :
    (∃ front, factoryNodes shared name body
      = front ++ [Node.stmt (.assign (cacheField name) result), Node.stmt (.ret (some result))])
      ↔ shared = true := by
  constructor
  · rintro ⟨front, h⟩
    cases shared with
    | true => rfl
    | false =>
        -- without a field the body stands right before the return
        have hnodes : body.map Node.stmt = front ++ [.stmt (.assign (cacheField name) result)] := by
          apply (List.append_left_inj [.stmt (.ret (some result))]).1
          simpa [factoryNodes] using h
        have hmem : Node.stmt (.assign (cacheField name) result) ∈ body.map Node.stmt := by
          simp [hnodes]
        obtain ⟨s, hs, heq⟩ := List.mem_map.1 hmem
        cases heq
        exact absurd hs (hbody _ _)
  · rintro rfl
    exact ⟨keptNode (cacheField name) :: body.map .stmt, by simp [factoryNodes]⟩

theorem getLast?_factoryNodes (body : List Statement) :
    (factoryNodes shared name body).getLast? = some (.stmt (.ret (some result))) := by
  simp [factoryNodes]

end Nodes

end Plan

namespace Graph

def kindsOf (g : Graph) (ids : List Nat) : List ObjectKind :=
  ids.filterMap fun i => (g.objects[i]?).map (·.kind)

def numberOf (g : Graph) (order : List Nat) (i : Nat) (kind : ObjectKind) : Nat :=
  (g.kindsOf (order.takeWhile (· != i))).count kind

def edgesInto (g : Graph) (order : List Nat) (i : Nat) : Nat :=
  (order.flatMap g.targetsOf).count i

theorem numberOf_self (g : Graph) (i : Nat) (rest : List Nat) (kind : ObjectKind) :
    g.numberOf (i :: rest) i kind = 0 := by
  simp [numberOf, kindsOf]

theorem numberOf_cons {g : Graph} {i j : Nat} {o : CompositionObject} (ho : g.objects[j]? = some o)
    (hne : j ≠ i) (rest : List Nat) (kind : ObjectKind) :
    g.numberOf (j :: rest) i kind = g.numberOf rest i kind + if o.kind = kind then 1 else 0 := by
  simp [numberOf, kindsOf, List.takeWhile_cons_of_pos, hne, ho, List.count_cons]

theorem assetOf_eq_some {g : Graph} {i : Nat} {id : String} :
    g.assetOf i = some id ↔ ∃ uri, g.objects[i]? = some (.imageSurface id uri) := by
  rw [assetOf]
  split
  · next other uri ho => simp [ho]
  · next hne =>
      simp only [reduceCtorEq, false_iff, not_exists]
      exact fun uri ho => hne id uri ho

theorem referencedAssets_sorted {g : Graph} {assets : List String}
    (h : g.referencedAssets = .ok assets) : assets.Pairwise (· < ·) := by
  rw [referencedAssets] at h
  obtain ⟨order, _, h⟩ := bind_eq_ok.1 h
  cases h
  exact Catalog.sortedTexts_pairwise _

theorem mem_referencedAssets {g : Graph} {order : List Nat} {assets : List String}
    (horder : g.preorder = .ok order) (h : g.referencedAssets = .ok assets) (id : String) :
    id ∈ assets ↔ ∃ i uri, g.Reachable i ∧ g.objects[i]? = some (.imageSurface id uri) := by
  rw [referencedAssets, horder, ok_bind] at h
  cases h
  rw [Catalog.mem_sortedTexts, List.mem_filterMap]
  simp only [assetOf_eq_some, mem_preorder horder, exists_and_left]

end Graph

namespace Plan

theorem nameFactories_number {g : Graph} {earlier : List ObjectKind} {order : List Nat}
    {names : List (Nat × String)} (h : nameFactories g earlier order = .ok names)
    (hnodup : order.Nodup) :
    ∀ x ∈ names, ∃ o, g.objects[x.1]? = some o
      ∧ x.2 = factoryName o.kind (earlier.count o.kind + g.numberOf order x.1 o.kind) := by
  induction order generalizing earlier names with
  | nil =>
      cases h
      simp
  | cons i rest ih =>
      obtain ⟨o, tail, ho, htail, rfl⟩ := nameFactories_cons h
      obtain ⟨hnew, hrest⟩ := List.nodup_cons.1 hnodup
      intro x hx
      rcases List.mem_cons.1 hx with rfl | hx
      · exact ⟨o, ho, by rw [Graph.numberOf_self, Nat.add_zero]⟩
      · obtain ⟨o', ho', hname⟩ := ih htail hrest x hx
        have hmem : x.1 ∈ rest := nameFactories_ids htail ▸ List.mem_map_of_mem hx
        have hne : i ≠ x.1 := fun heq => hnew (heq ▸ hmem)
        refine ⟨o', ho', hname.trans (congrArg _ ?_)⟩
        rw [Graph.numberOf_cons ho hne, List.count_cons]
        simp only [beq_iff_eq]
        omega

theorem Planned.name_eq_number {g : Graph} {t : Target} {p : Plan} (hp : Planned t g p) {i : Nat}
    {o : CompositionObject} {name : String} (ho : g.objects[i]? = some o)
    (h : p.nameOf i = .ok name) : name = factoryName o.kind (g.numberOf p.order i o.kind) := by
  obtain ⟨o', ho', hname⟩ := nameFactories_number hp.names hp.nodup _ (mem_names_of_nameOf h)
  cases ho.symm.trans ho'
  simpa using hname

theorem Planned.shared_iff_edgesInto {g : Graph} {t : Target} {p : Plan} (hp : Planned t g p)
    {i : Nat} (hi : i ∈ p.order) : p.shared.contains i = true ↔ 2 ≤ g.edgesInto p.order i := by
  rw [List.contains_iff_mem, hp.shared]
  exact and_iff_right hi

end Plan

def Target.objectType (t : Target) (kind : ObjectKind) : TypeRef :=
  .imported (if kind = .imageSurface then t.mediaSpace else t.compositionSpace) kind.name

theorem Plan.objectType_eq (p : Plan) (kind : ObjectKind) :
    p.objectType kind = p.target.objectType kind := by
  cases kind <;> rfl

structure Makes (g : Graph) (t : Target) (order : List Nat) (i : Nat) (m : Method) : Prop where
  object : ∃ o, g.objects[i]? = some o
    ∧ m.name = Plan.factoryName o.kind (g.numberOf order i o.kind)
    ∧ m.returns = t.objectType o.kind
  parameters : m.parameters = []
  guarded_iff : (∃ rest, m.body.nodes = Plan.keptNode (Plan.cacheField m.name) :: rest)
    ↔ 2 ≤ g.edgesInto order i
  kept_iff : (∃ front, m.body.nodes = front ++
      [.stmt (.assign (Plan.cacheField m.name) Plan.result), .stmt (.ret (some Plan.result))])
    ↔ 2 ≤ g.edgesInto order i
  last : m.body.nodes.getLast? = some (.stmt (.ret (some Plan.result)))

def Keeps (g : Graph) (t : Target) (order : List Nat) (i : Nat) (f : Field) : Prop :=
  ∃ o, g.objects[i]? = some o
    ∧ f.name = Plan.cacheField (Plan.factoryName o.kind (g.numberOf order i o.kind))
    ∧ f.type = t.objectType o.kind ∧ f.init = none

theorem Plan.Planned.makes {g : Graph} {t : Target} {p : Plan} (hp : Planned t g p) {i : Nat}
    {m : Method} (h : p.factory i = .ok m) : Makes g t p.order i m := by
  obtain ⟨o, name, body, ho, hname, hbody, rfl⟩ := factory_eq_ok h
  rw [hp.graph] at ho
  have hshared := hp.shared_iff_edgesInto (hp.mem_order_of_nameOf hname)
  have hassign : ∀ field value, .assign field value ∉ body := by
    intro field value hmem
    cases setsUp_objectStatements hbody _ hmem
  refine ⟨⟨o, ho, hp.name_eq_number ho hname, ?_⟩, rfl, ?_, ?_, ?_⟩
  · exact hp.target ▸ p.objectType_eq o.kind
  · exact (guarded_factoryNodes _ name body).trans hshared
  · exact (kept_factoryNodes _ name hassign).trans hshared
  · exact getLast?_factoryNodes _ name body

theorem Plan.Planned.keeps {g : Graph} {t : Target} {p : Plan} (hp : Planned t g p) {i : Nat}
    {f : Field} (h : p.sharedField i = .ok f) : Keeps g t p.order i f := by
  obtain ⟨o, name, ho, hname, rfl⟩ := sharedField_eq_ok h
  rw [hp.graph] at ho
  refine ⟨o, ho, congrArg cacheField (hp.name_eq_number ho hname), ?_, rfl⟩
  exact hp.target ▸ p.objectType_eq o.kind

structure LaidOut (g : Graph) (t : Target) (u : ClassUnit) (order : List Nat)
    (factories : List Method) (caches : List Field) : Prop where
  walk : g.preorder = .ok order
  methods : ∃ fixed theme, u.methods = fixed ++ factories
    ∧ fixed.map (·.name) = t.className :: "RootVisual" :: "Duration" :: "Size" :: theme
    ∧ theme.Sublist ["EnsureThemeProperties", "ColorAsVector4"]
  made : List.Forall₂ (Makes g t order) order factories
  made_nodup : (factories.map (·.name)).Nodup
  made_not_fixed : ∀ m ∈ factories, m.name ∉ Plan.fixedMembers
  fields : ∃ others, u.fields = others ++ caches
    ∧ ∀ a ∈ others.map (·.name), ∀ b ∈ caches.map (·.name), a ≠ b
  kept : List.Forall₂ (Keeps g t order) (order.filter fun i => 2 ≤ g.edgesInto order i) caches
  kept_nodup : (caches.map (·.name)).Nodup
  assets_sorted : u.assets.Pairwise (· < ·)
  mem_assets : ∀ id, id ∈ u.assets
    ↔ ∃ i uri, g.Reachable i ∧ g.objects[i]? = some (.imageSurface id uri)

namespace Parts

variable {x : Parts} {g : Graph} {t : Target}

theorem methods_eq (hx : x.Of g t) :
    ∃ fixed theme, x.unit.methods = fixed ++ x.factories
      ∧ fixed.map (·.name) = t.className :: "RootVisual" :: "Duration" :: "Size" :: theme
      ∧ theme.Sublist ["EnsureThemeProperties", "ColorAsVector4"] := by
  refine ⟨x.plan.constructorMethod x.rootFactory
    :: (x.plan.getterMethods x.ticks ++ x.plan.themeMethodList x.usesTheme),
    (x.plan.coreMethods x.usesTheme).drop 3, rfl, ?_, ?_⟩
  · rw [List.map_cons, coreMethods_eq, ← hx.planned.target]
    rfl
  · exact x.coreMethods_sublist.drop 3

theorem filter_shared (hx : x.Of g t) :
    x.plan.order.filter x.plan.shared.contains
      = x.plan.order.filter fun i => 2 ≤ g.edgesInto x.plan.order i := by
  apply List.filter_congr
  intro i hi
  rw [Bool.eq_iff_iff, hx.planned.shared_iff_edgesInto hi, decide_eq_true_iff]

end Parts

theorem lower_laidOut {g : Graph} {t : Target} {u : ClassUnit} (hu : g.lower t = .ok u) :
    ∃ order factories caches, LaidOut g t u order factories caches := by
  obtain ⟨x, hx, rfl⟩ := Graph.lower_parts hu
  refine ⟨x.plan.order, x.factories, x.sharedFields, ?_⟩
  have horder := hx.planned.order
  exact {
    walk := horder
    methods := Parts.methods_eq hx
    made := hx.factories.imp fun _ _ => hx.planned.makes
    made_nodup := Parts.factoryNames_nodup hx
    made_not_fixed := fun _ => Parts.factoryNames_not_fixed hx
    fields := ⟨_, rfl, Parts.classFields_names hx ▸ Parts.sharedFields_ne hx⟩
    kept := Parts.filter_shared hx ▸ hx.sharedFields.imp fun _ _ => hx.planned.keeps
    kept_nodup := Parts.sharedFields_nodup hx
    assets_sorted := Graph.referencedAssets_sorted hx.assets
    mem_assets := Graph.mem_referencedAssets horder hx.assets }

def paintedScene : Graph where
  objects := [.containerVisual {} [1, 2] [], .spriteVisual {} (some 3) [],
    .spriteVisual {} (some 3) [], .surfaceBrush 4, .imageSurface "image_0" "ms-appx:///cat.png"]
  root := some 0
  bindings := ⟨[]⟩

def paintedTarget : Target where
  language := .csharp
  size := ⟨1, 1⟩
  nanoseconds := 100

theorem lower_paintedScene : ∃ u, paintedScene.lower paintedTarget = .ok u := by
  have hvalid : paintedScene.validate = .ok () := Graph.validate_of_checks rfl rfl (by cbv)
  exact Graph.lower_of_unbound hvalid rfl ⟨1, rfl⟩

theorem lower_laidOut_paintedScene :
    ∃ u, paintedScene.lower paintedTarget = .ok u ∧ paintedScene.edgesInto [0, 1, 3, 4, 2] 3 = 2
      ∧ ∃ order factories caches, LaidOut paintedScene paintedTarget u order factories caches := by
  obtain ⟨u, hu⟩ := lower_paintedScene
  exact ⟨u, hu, by decide, lower_laidOut hu⟩

end Scenograph
