import Scenograph.Proofs.Composition.Renaming
import Scenograph.Proofs.Lowering.Shape

namespace Scenograph

open Plan

section Plans

variable {f : Nat → Nat} {g h : Graph} {t : Target} {p q : Plan} (hf : Graph.Renamed f g h)
  (hp : Planned t g p) (hq : Planned t h q)

include hf in
theorem nameFactories_renamed {earlier : List ObjectKind} {order : List Nat}
    {names : List (Nat × String)} (hreach : ∀ i ∈ order, g.Reachable i)
    (hnames : nameFactories g earlier order = .ok names) :
    nameFactories h earlier (order.map f) = .ok (names.map fun y => (f y.1, y.2)) := by
  induction order generalizing earlier names with
  | nil =>
      cases hnames
      rfl
  | cons i order ih =>
      obtain ⟨o, tail, ho, htail, rfl⟩ := nameFactories_cons hnames
      have hobject := hf.objects i o (hreach i (List.mem_cons_self ..)) ho
      have hrest := ih (fun j hj => hreach j (List.mem_cons_of_mem _ hj)) htail
      rw [List.map_cons, nameFactories, Graph.get_eq_ok.2 hobject, ok_bind,
        CompositionObject.kind_rename]
      exact bind_eq_ok.2 ⟨_, hrest, rfl⟩

include hf hp hq

theorem order_renamed : q.order = p.order.map f :=
  Except.ok.inj (hq.order.symm.trans (hf.preorder hp.order))

theorem names_renamed : q.names = p.names.map fun y => (f y.1, y.2) := by
  have hnames := nameFactories_renamed hf (fun i hi => hp.mem_order.1 hi) hp.names
  rw [← order_renamed hf hp hq] at hnames
  exact Except.ok.inj (hq.names.symm.trans hnames)

theorem nameOf_renamed {i : Nat} (hi : i ∈ p.order) : q.nameOf (f i) = p.nameOf i := by
  obtain ⟨name, hname⟩ := hp.nameOf_ok hi
  have hmem : (f i, name) ∈ q.names := by
    rw [names_renamed hf hp hq]
    exact List.mem_map.2 ⟨(i, name), mem_names_of_nameOf hname, rfl⟩
  have hnodup : (q.names.map (·.1)).Nodup := hq.ids ▸ hq.nodup
  rw [hname]
  exact nameOf_eq_ok.2 (lookup_of_mem hnodup hmem)

theorem flatMap_targetsOf_renamed :
    q.order.flatMap h.targetsOf = (p.order.flatMap g.targetsOf).map f := by
  rw [order_renamed hf hp hq, List.flatMap_map, List.map_flatMap]
  refine List.flatMap_congr fun i hi => ?_
  obtain ⟨o, ho⟩ := hp.object hi
  exact hf.targetsOf (hp.mem_order.1 hi) ho

theorem shared_renamed {i : Nat} (hi : i ∈ p.order) :
    q.shared.contains (f i) = p.shared.contains i := by
  have htargets : ∀ j ∈ p.order.flatMap g.targetsOf, g.Reachable j := by
    intro j hj
    obtain ⟨k, hk, hkj⟩ := List.mem_flatMap.1 hj
    exact (hp.mem_order.1 hk).step hkj
  have hiff : f i ∈ q.shared ↔ i ∈ p.shared := by
    rw [hq.shared, hp.shared, flatMap_targetsOf_renamed hf hp hq,
      hf.count_map htargets (hp.mem_order.1 hi), order_renamed hf hp hq,
      hf.mem_map (fun j hj => hp.mem_order.1 hj) (hp.mem_order.1 hi)]
  rw [Bool.eq_iff_iff, List.contains_iff_mem, List.contains_iff_mem, hiff]

end Plans

structure Alike (f : Nat → Nat) (ids : List Nat) (p q : Plan) : Prop where
  target : q.target = p.target
  nameOf : ∀ i ∈ ids, q.nameOf (f i) = p.nameOf i

section Statements

variable {f : Nat → Nat} {p q : Plan} {ids : List Nat} (hpq : Alike f ids p q)

include hpq

theorem Alike.compositionType (name : String) : q.compositionType name = p.compositionType name := by
  rw [Plan.compositionType, Plan.compositionType, hpq.target]

theorem Alike.objectType (kind : ObjectKind) : q.objectType kind = p.objectType kind := by
  simp only [Plan.objectType, Plan.compositionType, hpq.target]

theorem Alike.factoryCall {i : Nat} (hi : i ∈ ids) : q.factoryCall (f i) = p.factoryCall i := by
  rw [Plan.factoryCall, Plan.factoryCall, hpq.nameOf i hi]

theorem Alike.startAnimations {animators : List Animator}
    (hids : ∀ a ∈ animators, a.animation ∈ ids) :
    (animators.map (Animator.rename f)).mapM q.startAnimation = animators.mapM p.startAnimation := by
  rw [List.mapM_map]
  refine mapM_congr fun a ha => ?_
  have hcall := hpq.factoryCall (hids a ha)
  simp only [Function.comp, Plan.startAnimation, Animator.rename, hcall]

theorem Alike.insertChildren {children : List Nat} (hids : ∀ c ∈ children, c ∈ ids) :
    q.insertChildren (children.map f) = p.insertChildren children := by
  cases children with
  | nil => rfl
  | cons child children =>
      have hmap : ((child :: children).map f).mapM q.insertChild
          = (child :: children).mapM p.insertChild := by
        rw [List.mapM_map]
        refine mapM_congr fun c hc => ?_
        have hcall := hpq.factoryCall (hids c hc)
        simp only [Function.comp, Plan.insertChild, hcall]
      rw [List.map_cons] at hmap ⊢
      simp only [Plan.insertChildren, hmap, hpq.compositionType]

theorem Alike.setBrush {brush : Nat} (hbrush : brush ∈ ids) :
    q.setBrush (f brush) = p.setBrush brush := by
  rw [Plan.setBrush, Plan.setBrush, hpq.factoryCall hbrush]

theorem Alike.setReference {r : NamedReference} (hr : ∀ e ∈ r.edge?, e.target ∈ ids) :
    q.setReference (r.rename f) = p.setReference r := by
  obtain ⟨name, target⟩ := r
  cases target with
  | node id =>
      have hcall := hpq.factoryCall (hr ⟨name, id⟩ rfl)
      simp only [Plan.setReference, NamedReference.rename, Reference.rename, hcall]
  | theme => rfl

theorem Alike.setSources {bound : List BoundSource} (hids : ∀ s ∈ bound, s.brush ∈ ids) :
    ((bound.map (BoundSource.rename f)).map fun s => (s.name, s.brush)).mapM q.setSource
      = (bound.map fun s => (s.name, s.brush)).mapM p.setSource := by
  rw [List.mapM_map, List.mapM_map, List.mapM_map]
  refine mapM_congr fun s hs => ?_
  have hcall := hpq.factoryCall (hids s hs)
  simp only [Function.comp, Plan.setSource, BoundSource.rename, hcall]

theorem Alike.effectSettings (holder : String) (effect : Effect) :
    q.effectSettings holder effect = p.effectSettings holder effect := by
  cases effect <;> simp only [Plan.effectSettings, Plan.sourceParameter, hpq.compositionType, hpq.target]

theorem Alike.effectBrush {i : Nat} {type : TypeRef} {effect : Effect} {bound : List BoundSource}
    (hids : ∀ s ∈ bound, s.brush ∈ ids) (hp : p.graph.validate = .ok ())
    (hq : q.graph.validate = .ok ()) (ho : p.graph.objects[i]? = some (.effectBrush effect bound))
    (ho' : q.graph.objects[f i]? = some (.effectBrush effect (bound.map (BoundSource.rename f)))) :
    q.effectBrush (f i) type = p.effectBrush i type := by
  rw [Plan.effectBrush, Plan.effectBrush, Graph.orderedSources_of_valid hp ho,
    Graph.orderedSources_of_valid hq ho']
  simp only [ok_bind, hpq.setSources hids, hpq.effectSettings, hpq.compositionType]

theorem Alike.objectStatements {i : Nat} {o : CompositionObject}
    (hids : ∀ e ∈ o.edges, e.target ∈ ids) (hp : p.graph.validate = .ok ())
    (hq : q.graph.validate = .ok ()) (ho : p.graph.objects[i]? = some o)
    (ho' : q.graph.objects[f i]? = some (o.rename f)) :
    q.objectStatements (f i) (o.rename f) = p.objectStatements i o := by
  have hstarts : (o.animators.map (Animator.rename f)).mapM q.startAnimation
      = o.animators.mapM p.startAnimation := hpq.startAnimations fun a ha =>
    hids ⟨a.property, a.animation⟩ (List.mem_append_right _ (List.mem_map_of_mem ha))
  have hown : ∀ e ∈ o.ownEdges, e.target ∈ ids := fun e he =>
    hids e (List.mem_append_left _ he)
  cases o with
  | containerVisual properties children animators =>
      rw [CompositionObject.animators] at hstarts
      have hchildren := hpq.insertChildren fun c hc => hown ⟨"Children", c⟩ (List.mem_map_of_mem hc)
      simp only [Plan.objectStatements, CompositionObject.rename, CompositionObject.kind,
        hpq.objectType, hchildren, hstarts]
  | spriteVisual properties brush animators =>
      rw [CompositionObject.animators] at hstarts
      have hbrush : (brush.map f).toList.mapM q.setBrush = brush.toList.mapM p.setBrush := by
        rw [Option.toList_map, List.mapM_map]
        exact mapM_congr fun b hb => hpq.setBrush (hown ⟨"Brush", b⟩ (List.mem_map_of_mem hb))
      simp only [Plan.objectStatements, CompositionObject.rename, CompositionObject.kind,
        hpq.objectType, hbrush, hstarts]
  | colorBrush color animators =>
      rw [CompositionObject.animators] at hstarts
      simp only [Plan.objectStatements, CompositionObject.rename, CompositionObject.kind,
        hpq.objectType, hstarts]
  | effectBrush effect bound =>
      have hbound : ∀ s ∈ bound, s.brush ∈ ids := fun s hs =>
        hown ⟨s.name, s.brush⟩ (List.mem_map_of_mem hs)
      simp only [Plan.objectStatements, CompositionObject.rename, CompositionObject.kind,
        hpq.objectType]
      exact hpq.effectBrush hbound hp hq ho ho'
  | surfaceBrush surface =>
      have hcall := hpq.factoryCall (hown ⟨"Surface", surface⟩ (List.mem_singleton_self _))
      simp only [Plan.objectStatements, CompositionObject.rename, CompositionObject.kind,
        hpq.objectType, hcall]
  | imageSurface assetId uri =>
      simp only [Plan.objectStatements, CompositionObject.rename, CompositionObject.kind,
        hpq.objectType]
  | scalarAnimation keyFrames =>
      simp only [Plan.objectStatements, CompositionObject.rename, CompositionObject.kind,
        hpq.objectType, Plan.setDuration, hpq.target]
  | vector2Animation keyFrames =>
      simp only [Plan.objectStatements, CompositionObject.rename, CompositionObject.kind,
        hpq.objectType, Plan.setDuration, hpq.target]
  | expressionAnimation expression references =>
      have hsets : (references.map (NamedReference.rename f)).mapM q.setReference
          = references.mapM p.setReference := by
        rw [List.mapM_map]
        refine mapM_congr fun r hr => hpq.setReference fun e he => hown e ?_
        exact List.mem_filterMap.2 ⟨r, hr, he⟩
      simp only [Plan.objectStatements, CompositionObject.rename, CompositionObject.kind,
        hpq.objectType, hsets]

end Statements

section Units

variable {f : Nat → Nat} {g h : Graph} {t : Target} {p q : Plan} (hf : Graph.Renamed f g h)
  (hp : Planned t g p) (hq : Planned t h q)

include hf hp hq

theorem alike_renamed : Alike f p.order p q :=
  ⟨hq.target.trans hp.target.symm, fun _ hi => nameOf_renamed hf hp hq hi⟩

theorem factory_renamed {i : Nat} (hi : i ∈ p.order) : q.factory (f i) = p.factory i := by
  have halike := alike_renamed hf hp hq
  obtain ⟨o, ho⟩ := hp.object hi
  have ho' := hf.objects i o (hp.mem_order.1 hi) ho
  have hids : ∀ e ∈ o.edges, e.target ∈ p.order := fun e he =>
    hp.target_mem hi (by rwa [Graph.edgesOf_some ho])
  have hstatements := halike.objectStatements (i := i) hids (hp.graph ▸ hp.valid)
    (hq.graph ▸ hq.valid) (hp.graph ▸ ho) (hq.graph ▸ ho')
  rw [Plan.factory, Plan.factory, hp.graph, hq.graph, Graph.get_eq_ok.2 ho, Graph.get_eq_ok.2 ho',
    ok_bind, ok_bind, hstatements, halike.nameOf i hi, CompositionObject.kind_rename,
    halike.objectType, shared_renamed hf hp hq hi]

theorem sharedField_renamed {i : Nat} (hi : i ∈ p.order) :
    q.sharedField (f i) = p.sharedField i := by
  have halike := alike_renamed hf hp hq
  obtain ⟨o, ho⟩ := hp.object hi
  have ho' := hf.objects i o (hp.mem_order.1 hi) ho
  rw [Plan.sharedField, Plan.sharedField, hp.graph, hq.graph, Graph.get_eq_ok.2 ho,
    Graph.get_eq_ok.2 ho', ok_bind, ok_bind, halike.nameOf i hi, CompositionObject.kind_rename,
    halike.objectType]

theorem addFactory_renamed (m : Plan.Members) {i : Nat} (hi : i ∈ p.order) :
    q.addFactory m (f i) = p.addFactory m i := by
  rw [Plan.addFactory, Plan.addFactory, Plan.cacheFields, Plan.cacheFields,
    shared_renamed hf hp hq hi, sharedField_renamed hf hp hq hi, factory_renamed hf hp hq hi]

theorem members_renamed (m : Plan.Members) :
    q.order.foldlM q.addFactory m = p.order.foldlM p.addFactory m := by
  rw [order_renamed hf hp hq, List.foldlM_map]
  exact foldlM_congr (fun m i hi => addFactory_renamed hf hp hq m hi) m

theorem usesTheme_renamed : h.usesTheme = g.usesTheme := by
  have htheme : ∀ i ∈ p.order, h.themeAt (f i) = g.themeAt i := by
    intro i hi
    obtain ⟨o, ho⟩ := hp.object hi
    rw [Graph.themeAt, Graph.themeAt, ho, hf.objects i o (hp.mem_order.1 hi) ho]
    exact CompositionObject.referencesTheme_rename f o
  have hany : q.order.any h.themeAt = p.order.any g.themeAt := by
    rw [order_renamed hf hp hq, List.any_map, Bool.eq_iff_iff, List.any_eq_true, List.any_eq_true]
    refine exists_congr fun i => and_congr_right fun hi => ?_
    rw [Function.comp, htheme i hi]
  rw [Graph.usesTheme, Graph.usesTheme, hf.bindings, hp.order, hq.order, ok_bind, ok_bind, hany]

theorem referencedAssets_renamed : h.referencedAssets = g.referencedAssets := by
  have hassets : q.order.filterMap h.assetOf = p.order.filterMap g.assetOf := by
    rw [order_renamed hf hp hq, List.filterMap_map]
    refine List.filterMap_congr fun i hi => ?_
    obtain ⟨o, ho⟩ := hp.object hi
    rw [Function.comp, Graph.assetOf, Graph.assetOf, ho, hf.objects i o (hp.mem_order.1 hi) ho]
    cases o <;> rfl
  rw [Graph.referencedAssets, Graph.referencedAssets, hp.order, hq.order, ok_bind, ok_bind, hassets]

theorem bindings_renamed : q.graph.bindings = p.graph.bindings := by
  rw [hp.graph, hq.graph, hf.bindings]

theorem checkBindings_renamed : q.checkBindings = p.checkBindings := by
  have htarget := (alike_renamed hf hp hq).target
  have hbindings := bindings_renamed hf hp hq
  have hnames : ∀ name, q.names.any (·.2 == name) = p.names.any (·.2 == name) := by
    intro name
    rw [names_renamed hf hp hq, List.any_map]
    rfl
  have hflaw : q.bindingFlaw? = p.bindingFlaw? := by
    funext b
    have hclashes : q.clashes b.name = p.clashes b.name := by
      simp only [Plan.clashes, htarget, hbindings, hnames]
    rw [Plan.bindingFlaw?, Plan.bindingFlaw?, hclashes, htarget]
  simp only [Plan.checkBindings, hflaw, hbindings]

theorem constructor_renamed {root : Nat} (hroot : root ∈ p.order) :
    q.constructor (f root) = p.constructor root := by
  have halike := alike_renamed hf hp hq
  simp only [Plan.constructor, halike.factoryCall hroot, halike.target, halike.compositionType]

theorem getters_renamed : q.getters = p.getters := by
  have halike := alike_renamed hf hp hq
  simp only [Plan.getters, halike.target, halike.compositionType]

theorem themeMethods_renamed (usesTheme : Bool) : q.themeMethods usesTheme = p.themeMethods usesTheme := by
  have halike := alike_renamed hf hp hq
  have hbindings := bindings_renamed hf hp hq
  simp only [Plan.themeMethods, Plan.ensureTheme, Plan.conversions, hbindings, halike.compositionType]

theorem classFields_renamed (usesTheme : Bool) : q.classFields usesTheme = p.classFields usesTheme := by
  have halike := alike_renamed hf hp hq
  have hbindings := bindings_renamed hf hp hq
  simp only [Plan.classFields, hbindings, halike.compositionType]

end Units

theorem lower_renamed {f : Nat → Nat} {g h : Graph} (hf : Graph.Renamed f g h)
    (hg : g.validate = .ok ()) (hh : h.validate = .ok ()) (t : Target) : h.lower t = g.lower t := by
  obtain ⟨p, hplan⟩ := Plan.ofGraph_of_valid t hg
  obtain ⟨q, hplan'⟩ := Plan.ofGraph_of_valid t hh
  have hp := Plan.ofGraph_planned hplan
  have hq := Plan.ofGraph_planned hplan'
  obtain ⟨root, o, hroot, ho, _⟩ := Graph.root_of_valid hg
  have hroot' : h.root = some (f root) := by rw [hf.root, hroot, Option.map_some]
  have hmem : root ∈ p.order := hp.mem_order.2 ⟨root, hroot, .refl⟩
  have haccessors : q.accessors = p.accessors := by
    funext usesTheme
    simp only [Plan.accessors, bindings_renamed hf hp hq]
  simp only [Graph.lower, hplan, hplan', ok_bind, checkBindings_renamed hf hp hq,
    usesTheme_renamed hf hp hq, Graph.getRoot_eq_ok.2 hroot, Graph.getRoot_eq_ok.2 hroot',
    constructor_renamed hf hp hq hmem, getters_renamed hf hp hq, themeMethods_renamed hf hp hq,
    haccessors, members_renamed hf hp hq, referencedAssets_renamed hf hp hq, classFields_renamed hf hp hq]

theorem code_independent_of_arena {f : Nat → Nat} {g h : Graph} (hf : Graph.Renamed f g h)
    (hg : g.validate = .ok ()) (hh : h.validate = .ok ()) (t : Target) :
    g.lower t = h.lower t ∧ ∀ writer, g.generate t writer = h.generate t writer := by
  have hlower := lower_renamed hf hg hh t
  refine ⟨hlower.symm, fun writer => ?_⟩
  rw [Graph.generate, Graph.generate, hlower]

def swapFirst (i : Nat) : Nat :=
  if i = 0 then 1 else if i = 1 then 0 else i

def twoSprites : Graph where
  objects := [.containerVisual {} [1, 1] [], .spriteVisual {} none []]
  root := some 0
  bindings := Catalog.empty

def twoSpritesElsewhere : Graph where
  objects := [.spriteVisual {} none [], .containerVisual {} [0, 0] [], .imageSurface "image" "image.png"]
  root := some 1
  bindings := Catalog.empty

theorem renamed_twoSprites : Graph.Renamed swapFirst twoSprites twoSpritesElsewhere where
  bindings := rfl
  root := rfl
  injective := by
    intro i j _ _ heq
    grind [swapFirst]
  objects := by
    intro i o _ ho
    match i with
    | 0 => cases ho; rfl
    | 1 => cases ho; rfl
    | i + 2 => cases ho

theorem code_independent_of_arena_twoSprites :
    Graph.Renamed swapFirst twoSprites twoSpritesElsewhere ∧ twoSprites.validate = .ok ()
      ∧ twoSpritesElsewhere.validate = .ok () ∧ twoSprites.lower ⟨.csharp, false, ⟨1, 1⟩, 100, "A", "B"⟩
        = twoSpritesElsewhere.lower ⟨.csharp, false, ⟨1, 1⟩, 100, "A", "B"⟩
      ∧ ∀ writer, twoSprites.generate ⟨.csharp, false, ⟨1, 1⟩, 100, "A", "B"⟩ writer
        = twoSpritesElsewhere.generate ⟨.csharp, false, ⟨1, 1⟩, 100, "A", "B"⟩ writer := by
  have hg : twoSprites.validate = .ok () := by cbv
  have hh : twoSpritesElsewhere.validate = .ok () := by cbv
  exact ⟨renamed_twoSprites, hg, hh, code_independent_of_arena renamed_twoSprites hg hh _⟩

end Scenograph
