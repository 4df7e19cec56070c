import Mathlib.Logic.Relation
import Scenograph.Proofs.Lowering.Shape

namespace Scenograph

def Flaw.OfGraph (flaw : Flaw) : Prop :=
  flaw ≠ .notReachable ∧ flaw ≠ .notEffectBrush

def Fault.OfGraph (fault : Fault) : Prop :=
  ∃ place flaw, fault = .structural place flaw ∧ flaw.OfGraph

theorem Target.check_eq_ok {t : Target} {writer : Language} (h : t.check writer = .ok ()) :
    writer = t.language ∧ isIdentifier t.className = true ∧ isDottedIdentifier t.space = true
      ∧ ∃ ticks, t.ticks = .ok ticks := by
  unfold check at h
  by_cases hlanguage : writer = t.language
  · by_cases hclass : isIdentifier t.className = true
    · by_cases hspace : isDottedIdentifier t.space = true
      · simp only [hlanguage, ne_eq, not_true_eq_false, if_false, hclass, hspace, Bool.not_true,
          Bool.false_eq_true] at h
        split at h
        · cases h
        · obtain ⟨ticks, hticks, _⟩ := bind_eq_ok.1 h
          exact ⟨hlanguage, hclass, hspace, ticks, hticks⟩
      · simp only [hspace, Bool.not_false, if_true] at h
        split at h <;> split at h <;> split at h <;> cases h
    · simp only [hclass, Bool.not_false, if_true] at h
      split at h <;> split at h <;> cases h
  · rw [if_pos hlanguage] at h
    cases h

namespace Effect

theorem sourceFlaw?_ofGraph {seen names : List String} {flaw : Flaw}
    (h : sourceFlaw? seen names = some flaw) : flaw.OfGraph := by
  induction names generalizing seen with
  | nil => cases h
  | cons name rest ih =>
      rw [sourceFlaw?] at h
      split at h
      · cases h
        simp [Flaw.OfGraph]
      · split at h
        · cases h
          simp [Flaw.OfGraph]
        · exact ih h

theorem amountFlaw?_ofGraph {e : Effect} {flaw : Flaw} (h : e.amountFlaw? = some flaw) :
    flaw.OfGraph := by
  unfold amountFlaw? at h
  split at h
  · split at h
    · cases h
      simp [Flaw.OfGraph]
    · cases h
  · cases h

theorem flaw?_ofGraph {e : Effect} {flaw : Flaw} (h : e.flaw? = some flaw) : flaw.OfGraph := by
  rcases Option.or_eq_some_iff.1 h with h | ⟨_, h⟩
  · exact sourceFlaw?_ofGraph h
  · exact amountFlaw?_ofGraph h

end Effect

namespace Graph

variable {g : Graph} {flaw : Flaw} {fault : Fault}

theorem edgeFlaw?_ofGraph {o : CompositionObject} {e : Edge} (h : g.edgeFlaw? o e = some flaw) :
    flaw.OfGraph := by
  unfold edgeFlaw? at h
  split at h
  · cases h
    simp [Flaw.OfGraph]
  · split at h
    · cases h
    · cases h
      simp [Flaw.OfGraph]

theorem pairSources_ofGraph {slots : List String} {bound : List BoundSource}
    (h : pairSources slots bound = .error flaw) : flaw.OfGraph := by
  fun_induction pairSources slots bound with
  | case1 slots b rest ih =>
      cases hrest : pairSources slots rest with
      | error other =>
          rw [hrest] at h
          cases h
          exact ih hrest
      | ok sources =>
          rw [hrest] at h
          cases h
  | case2 slot slots b rest hne =>
      cases h
      simp [Flaw.OfGraph]
  | case3 => cases h

theorem sourcesOf_ofGraph {effect : Effect} {bound : List BoundSource}
    (h : sourcesOf effect bound = .error flaw) : flaw.OfGraph := by
  rw [sourcesOf] at h
  split at h
  · exact pairSources_ofGraph h
  · cases h
    simp [Flaw.OfGraph]

theorem rootFault?_ofGraph (h : g.rootFault? = some fault) : fault.OfGraph := by
  unfold rootFault? at h
  split at h
  · cases h
    exact ⟨_, _, rfl, by simp [Flaw.OfGraph]⟩
  · split at h
    · cases h
      exact ⟨_, _, rfl, by simp [Flaw.OfGraph]⟩
    · split at h
      · cases h
      · cases h
        exact ⟨_, _, rfl, by simp [Flaw.OfGraph]⟩

theorem effectFault?_ofGraph {place : Place} {i : Nat} {o : CompositionObject}
    (h : effectFault? place i o = some fault) : fault.OfGraph := by
  unfold effectFault? at h
  split at h
  · next effect bound =>
      split at h
      · next hflaw =>
          cases h
          exact ⟨_, _, rfl, Effect.flaw?_ofGraph hflaw⟩
      · next hsources =>
          cases h
          exact ⟨_, _, rfl, sourcesOf_ofGraph hsources⟩
      · cases h
  · cases h

theorem objectFault?_ofGraph {o : CompositionObject} {i : Nat} (h : g.objectFault? o i = some fault) :
    fault.OfGraph := by
  rcases Option.or_eq_some_iff.1 h with h | ⟨_, h⟩
  · obtain ⟨flaw, hflaw, rfl⟩ := Option.map_eq_some_iff.1 h
    obtain ⟨e, _, hedge⟩ := List.exists_of_findSome?_eq_some hflaw
    exact ⟨_, flaw, rfl, edgeFlaw?_ofGraph hedge⟩
  · rcases Option.or_eq_some_iff.1 h with h | ⟨_, h⟩
    · exact effectFault?_ofGraph h
    · split at h
      · cases h
        exact ⟨_, _, rfl, by simp [Flaw.OfGraph]⟩
      · cases h

theorem cycleFault?_ofGraph (h : g.cycleFault? = some fault) : fault.OfGraph := by
  unfold cycleFault? at h
  split at h
  · cases h
  · cases h
    exact ⟨_, _, rfl, by simp [Flaw.OfGraph]⟩

theorem validate_eq_error : g.validate = .error fault ↔ g.fault? = some fault := by
  unfold validate
  cases g.fault? <;> simp

theorem validate_ofGraph (h : g.validate = .error fault) : fault.OfGraph := by
  rcases Option.or_eq_some_iff.1 (validate_eq_error.1 h) with h | ⟨_, h⟩
  · exact rootFault?_ofGraph h
  · rcases Option.or_eq_some_iff.1 h with h | ⟨_, h⟩
    · obtain ⟨entry, _, hobject⟩ := List.exists_of_findSome?_eq_some h
      exact objectFault?_ofGraph hobject
    · exact cycleFault?_ofGraph h

end Graph

namespace Plan

variable {g : Graph} {t : Target} {p : Plan}

theorem bindingFlaw?_eq_some {b : Binding} {flaw : Flaw} (h : p.bindingFlaw? b = some flaw) :
    flaw = .memberClash ∨ flaw = .bindingIsKeyword p.target.language := by
  unfold bindingFlaw? at h
  split at h
  · exact .inl (Option.some.inj h).symm
  · split at h
    · exact .inr (Option.some.inj h).symm
    · cases h

theorem bindingFlaw?_of_not_clashes {b : Binding} {flaw : Flaw} (hb : p.clashes b.name = false) :
    p.bindingFlaw? b = some flaw ↔ p.target.language.isReserved b.name = true
      ∧ flaw = .bindingIsKeyword p.target.language := by
  rw [bindingFlaw?, hb, if_neg Bool.false_ne_true]
  cases p.target.language.isReserved b.name <;> simp [eq_comm]

theorem exists_bindingFlaw {fault : Fault} (h : p.checkBindings = .error fault) :
    ∃ b ∈ p.graph.bindings.values, ∃ flaw, fault = .structural (.binding b.name) flaw
      ∧ p.bindingFlaw? b = some flaw := by
  unfold checkBindings at h
  split at h
  · next hsome =>
      cases h
      obtain ⟨b, hb, hfault⟩ := List.exists_of_findSome?_eq_some hsome
      obtain ⟨flaw, hflaw, rfl⟩ := Option.map_eq_some_iff.1 hfault
      exact ⟨b, hb, flaw, rfl, hflaw⟩
  · cases h

theorem checkBindings_eq_error {fault : Fault} (h : p.checkBindings = .error fault) :
    ∃ b ∈ p.graph.bindings.values, ∃ flaw, fault = .structural (.binding b.name) flaw
      ∧ (flaw = .memberClash ∨ flaw = .bindingIsKeyword p.target.language) := by
  obtain ⟨b, hb, flaw, hfault, hflaw⟩ := exists_bindingFlaw h
  exact ⟨b, hb, flaw, hfault, bindingFlaw?_eq_some hflaw⟩

namespace Planned

variable (hp : Planned t g p)

include hp

theorem factoryCall_ok {i : Nat} (hi : i ∈ p.order) : ∃ e, p.factoryCall i = .ok e :=
  bind_ok (hp.nameOf_ok hi) fun _ _ => ⟨_, rfl⟩

theorem startAnimations_ok {animators : List Animator}
    (h : ∀ a ∈ animators, a.animation ∈ p.order) :
    ∃ ss, animators.mapM p.startAnimation = .ok ss :=
  mapM_ok fun a ha => bind_ok (hp.factoryCall_ok (h a ha)) fun _ _ => ⟨_, rfl⟩

theorem insertChildren_ok {children : List Nat} (h : ∀ c ∈ children, c ∈ p.order) :
    ∃ ss, p.insertChildren children = .ok ss := by
  have hinserts : ∃ ss, children.mapM p.insertChild = .ok ss :=
    mapM_ok fun c hc => bind_ok (hp.factoryCall_ok (h c hc)) fun _ _ => ⟨_, rfl⟩
  cases children with
  | nil => exact ⟨[], rfl⟩
  | cons c rest => exact bind_ok hinserts fun _ _ => ⟨_, rfl⟩

theorem setReference_ok {r : NamedReference} (h : ∀ e, r.edge? = some e → e.target ∈ p.order) :
    ∃ s, p.setReference r = .ok s := by
  obtain ⟨name, target⟩ := r
  cases target with
  | node i => exact bind_ok (hp.factoryCall_ok (h ⟨name, i⟩ rfl)) fun _ _ => ⟨_, rfl⟩
  | theme => exact ⟨_, rfl⟩

theorem effectBrush_ok {i : Nat} {effect : Effect} {bound : List BoundSource} (type : TypeRef)
    (ho : g.objects[i]? = some (.effectBrush effect bound))
    (h : ∀ s ∈ bound, s.brush ∈ p.order) : ∃ body, p.effectBrush i type = .ok body := by
  have hsources := Graph.orderedSources_of_valid hp.valid ho
  have hsets : ∃ ss, (bound.map fun s => (s.name, s.brush)).mapM p.setSource = .ok ss := by
    refine mapM_ok fun source hsource => ?_
    obtain ⟨s, hs, rfl⟩ := List.mem_map.1 hsource
    exact bind_ok (hp.factoryCall_ok (h s hs)) fun _ _ => ⟨_, rfl⟩
  rw [effectBrush, hp.graph, hsources, ok_bind]
  exact bind_ok hsets fun _ _ => ⟨_, rfl⟩

theorem ticks_ok (ht : ∃ ticks, t.ticks = .ok ticks) : ∃ ticks, p.target.ticks = .ok ticks :=
  hp.target ▸ ht

theorem setDuration_ok (ht : ∃ ticks, t.ticks = .ok ticks) : ∃ s, p.setDuration = .ok s :=
  bind_ok (hp.ticks_ok ht) fun _ _ => ⟨_, rfl⟩

theorem objectStatements_ok (ht : ∃ ticks, t.ticks = .ok ticks) {i : Nat}
    {o : CompositionObject} (hi : i ∈ p.order) (ho : g.objects[i]? = some o) :
    ∃ body, p.objectStatements i o = .ok body := by
  have hedges : ∀ e ∈ o.edges, e.target ∈ p.order := by
    rw [← Graph.edgesOf_some ho]
    exact fun e he => hp.target_mem hi he
  have hown : ∀ e ∈ o.ownEdges, e.target ∈ p.order :=
    fun e he => hedges e (List.mem_append_left _ he)
  have hanimations : ∃ ss, o.animators.mapM p.startAnimation = .ok ss :=
    hp.startAnimations_ok fun a ha =>
      hedges ⟨a.property, a.animation⟩ (List.mem_append_right _ (List.mem_map_of_mem ha))
  cases o with
  | containerVisual properties children animators =>
      have hinserts : ∃ ss, p.insertChildren children = .ok ss :=
        hp.insertChildren_ok fun c hc => hown ⟨"Children", c⟩ (List.mem_map_of_mem hc)
      exact bind_ok hinserts fun _ _ => bind_ok hanimations fun _ _ => ⟨_, rfl⟩
  | spriteVisual properties brush animators =>
      have hsets : ∃ ss, brush.toList.mapM p.setBrush = .ok ss := mapM_ok fun b hb =>
        bind_ok (hp.factoryCall_ok (hown ⟨"Brush", b⟩ (List.mem_map_of_mem hb))) fun _ _ => ⟨_, rfl⟩
      exact bind_ok hsets fun _ _ => bind_ok hanimations fun _ _ => ⟨_, rfl⟩
  | colorBrush color animators => exact bind_ok hanimations fun _ _ => ⟨_, rfl⟩
  | effectBrush effect bound =>
      exact hp.effectBrush_ok _ ho fun s hs => hown ⟨s.name, s.brush⟩ (List.mem_map_of_mem hs)
  | surfaceBrush surface =>
      have hcall := hp.factoryCall_ok (hown ⟨"Surface", surface⟩ (List.mem_singleton_self _))
      exact bind_ok hcall fun _ _ => ⟨_, rfl⟩
  | imageSurface assetId uri => exact ⟨_, rfl⟩
  | scalarAnimation keyFrames => exact bind_ok (hp.setDuration_ok ht) fun _ _ => ⟨_, rfl⟩
  | vector2Animation keyFrames => exact bind_ok (hp.setDuration_ok ht) fun _ _ => ⟨_, rfl⟩
  | expressionAnimation expression references =>
      have hreferences : ∃ ss, references.mapM p.setReference = .ok ss := mapM_ok fun r hr =>
        hp.setReference_ok fun e he => hown e (List.mem_filterMap.2 ⟨r, hr, he⟩)
      exact bind_ok hreferences fun _ _ => ⟨_, rfl⟩

theorem get_ok {i : Nat} (hi : i ∈ p.order) : ∃ o, p.graph.get i = .ok o := by
  obtain ⟨o, ho⟩ := hp.object hi
  exact ⟨o, hp.graph ▸ Graph.get_eq_ok.2 ho⟩

theorem factory_ok (ht : ∃ ticks, t.ticks = .ok ticks) {i : Nat} (hi : i ∈ p.order) :
    ∃ m, p.factory i = .ok m := by
  refine bind_ok (hp.get_ok hi) fun o ho => bind_ok (hp.nameOf_ok hi) fun name _ => ?_
  have hbody := hp.objectStatements_ok ht hi (hp.graph ▸ Graph.get_eq_ok.1 ho)
  exact bind_ok hbody fun body _ => ⟨_, method_eq_ok (run_factorySteps _ _ _)⟩

theorem sharedField_ok {i : Nat} (hi : i ∈ p.order) : ∃ f, p.sharedField i = .ok f :=
  bind_ok (hp.get_ok hi) fun _ _ => bind_ok (hp.nameOf_ok hi) fun _ _ => ⟨_, rfl⟩

theorem addFactory_ok (ht : ∃ ticks, t.ticks = .ok ticks) (m : Members) {i : Nat}
    (hi : i ∈ p.order) : ∃ m', p.addFactory m i = .ok m' := by
  have hfields : ∃ fields, p.cacheFields i = .ok fields := by
    rw [cacheFields_eq]
    refine mapM_ok fun j hj => hp.sharedField_ok ?_
    exact List.mem_singleton.1 (List.mem_filter.1 hj).1 ▸ hi
  exact bind_ok hfields fun _ _ => bind_ok (hp.factory_ok ht hi) fun _ _ => ⟨_, rfl⟩

theorem root_mem : ∃ root, g.getRoot = .ok root ∧ root ∈ p.order := by
  obtain ⟨root, o, hroot, _⟩ := Graph.root_of_valid hp.valid
  exact ⟨root, Graph.getRoot_eq_ok.2 hroot, hp.mem_order.2 ⟨root, hroot, .refl⟩⟩

theorem constructor_ok {root : Nat} (hroot : root ∈ p.order) : ∃ m, p.constructor root = .ok m :=
  bind_ok (hp.factoryCall_ok hroot) fun _ _ => ⟨_, rfl⟩

theorem getters_ok (ht : ∃ ticks, t.ticks = .ok ticks) : ∃ ms, p.getters = .ok ms :=
  bind_ok ⟨_, rfl⟩ fun _ _ => bind_ok (hp.ticks_ok ht) fun _ _ => ⟨_, rfl⟩

theorem usesTheme_ok : ∃ usesTheme, g.usesTheme = .ok usesTheme := by
  rw [Graph.usesTheme]
  split
  · exact ⟨true, rfl⟩
  · exact bind_ok ⟨_, hp.order⟩ fun _ _ => ⟨_, rfl⟩

theorem assets_ok : ∃ assets, g.referencedAssets = .ok assets :=
  bind_ok ⟨_, hp.order⟩ fun _ _ => ⟨_, rfl⟩

end Planned

end Plan

namespace Graph

variable {g : Graph} {t : Target}

theorem lower_of_invalid {fault : Fault} (h : g.validate = .error fault) :
    g.lower t = .error fault := by
  rw [lower, Plan.ofGraph, h]
  rfl

theorem lower_of_flawed {p : Plan} {fault : Fault} (hp : Plan.ofGraph t g = .ok p)
    (h : p.checkBindings = .error fault) : g.lower t = .error fault := by
  rw [lower, hp, ok_bind, h]
  rfl

theorem lower_ok {p : Plan} (hplan : Plan.ofGraph t g = .ok p) (hbindings : p.checkBindings = .ok ())
    (ht : ∃ ticks, t.ticks = .ok ticks) : ∃ u, g.lower t = .ok u := by
  have hp := Plan.ofGraph_planned hplan
  obtain ⟨root, hroot, hmem⟩ := hp.root_mem
  rw [lower, hplan, ok_bind, hbindings, ok_bind]
  refine bind_ok hp.usesTheme_ok fun usesTheme _ => ?_
  rw [hroot, ok_bind]
  refine bind_ok (hp.constructor_ok hmem) fun constructor _ => ?_
  refine bind_ok (hp.getters_ok ht) fun getters _ => ?_
  rw [Plan.themeMethods_eq_ok, ok_bind, Plan.accessors_eq_ok, ok_bind]
  have hmembers := foldlM_ok fun m i hi => hp.addFactory_ok ht m hi
  exact bind_ok (hmembers _) fun _ _ => bind_ok hp.assets_ok fun _ _ => ⟨_, rfl⟩

theorem lower_of_unbound (hg : g.validate = .ok ()) (hbindings : g.bindings.values = [])
    (ht : ∃ ticks, t.ticks = .ok ticks) : ∃ u, g.lower t = .ok u := by
  obtain ⟨p, hplan⟩ := Plan.ofGraph_of_valid t hg
  have hcheck : p.checkBindings = .ok () := by
    rw [Plan.checkBindings, (Plan.ofGraph_planned hplan).graph, hbindings]
    rfl
  exact lower_ok hplan hcheck ht

theorem lower_eq_ok_iff (ht : ∃ ticks, t.ticks = .ok ticks) : (∃ u, g.lower t = .ok u) ↔
    g.validate = .ok () ∧ ∃ p, Plan.ofGraph t g = .ok p ∧ p.checkBindings = .ok () := by
  constructor
  · rintro ⟨u, hu⟩
    obtain ⟨x, hx, _⟩ := lower_parts hu
    exact ⟨hx.planned.valid, x.plan, hx.plan, hx.bindings⟩
  · rintro ⟨_, p, hp, hbindings⟩
    exact lower_ok hp hbindings ht

theorem lower_eq_error_iff {fault : Fault} (ht : ∃ ticks, t.ticks = .ok ticks) :
    g.lower t = .error fault ↔ g.validate = .error fault
      ∨ g.validate = .ok () ∧ ∃ p, Plan.ofGraph t g = .ok p ∧ p.checkBindings = .error fault := by
  constructor
  · intro h
    cases hvalid : g.validate with
    | error other =>
        rw [lower_of_invalid hvalid] at h
        cases h
        exact .inl rfl
    | ok _ =>
        obtain ⟨p, hp⟩ := Plan.ofGraph_of_valid t hvalid
        cases hbindings : p.checkBindings with
        | error other =>
            rw [lower_of_flawed hp hbindings] at h
            cases h
            exact .inr ⟨rfl, p, hp, hbindings⟩
        | ok _ =>
            obtain ⟨u, hu⟩ := lower_ok hp hbindings ht
            rw [hu] at h
            cases h
  · rintro (hvalid | ⟨_, p, hp, hbindings⟩)
    · exact lower_of_invalid hvalid
    · exact lower_of_flawed hp hbindings

end Graph

structure FailsByChecks (g : Graph) (t : Target) (writer : Language) : Prop where
  error_iff : ∀ fault, g.lower t = .error fault ↔ g.validate = .error fault
    ∨ g.validate = .ok () ∧ ∃ p, Plan.ofGraph t g = .ok p ∧ p.checkBindings = .error fault
  ok_iff : (∃ u, g.lower t = .ok u) ↔
    g.validate = .ok () ∧ ∃ p, Plan.ofGraph t g = .ok p ∧ p.checkBindings = .ok ()
  ofGraph : ∀ fault, g.lower t = .error fault → fault.OfGraph
  ofBinding : ∀ fault, g.validate = .ok () → g.lower t = .error fault →
    ∃ b ∈ g.bindings.values, ∃ flaw, fault = .structural (.binding b.name) flaw
      ∧ (flaw = .memberClash ∨ flaw = .bindingIsKeyword writer)

theorem lower_failsByChecks {t : Target} {writer : Language} (ht : t.check writer = .ok ())
    (g : Graph) : FailsByChecks g t writer := by
  obtain ⟨hwriter, _, _, hticks⟩ := Target.check_eq_ok ht
  have hflawed : ∀ fault, g.validate = .ok () → g.lower t = .error fault →
      ∃ b ∈ g.bindings.values, ∃ flaw, fault = .structural (.binding b.name) flaw
        ∧ (flaw = .memberClash ∨ flaw = .bindingIsKeyword writer) := by
    intro fault hvalid h
    rcases (Graph.lower_eq_error_iff hticks).1 h with hinvalid | ⟨_, p, hp, hbindings⟩
    · cases hvalid.symm.trans hinvalid
    · have hplanned := Plan.ofGraph_planned hp
      rw [hwriter, ← hplanned.target, ← hplanned.graph]
      exact Plan.checkBindings_eq_error hbindings
  refine ⟨fun _ => Graph.lower_eq_error_iff hticks, Graph.lower_eq_ok_iff hticks, ?_, hflawed⟩
  intro fault h
  cases hvalid : g.validate with
  | error other =>
      rw [Graph.lower_of_invalid hvalid] at h
      cases h
      exact Graph.validate_ofGraph hvalid
  | ok _ =>
      obtain ⟨b, _, flaw, rfl, rfl | rfl⟩ := hflawed fault hvalid h <;>
        exact ⟨_, _, rfl, by simp [Flaw.OfGraph]⟩

def clashingBinding : Binding :=
  ⟨"Size", "Size", .scalar, .scalar, .scalar 0⟩

def clashingScene : Graph where
  objects := [.containerVisual {} [1, 1] [⟨"Opacity", 3⟩], .spriteVisual {} (some 2) [],
    .effectBrush (.gaussianBlur none none) [], .expressionAnimation "size" [⟨"size", .theme⟩]]
  root := some 0
  bindings := ⟨[("Size", clashingBinding)]⟩

def clashingTarget : Target where
  language := .cppWinRT
  size := ⟨1, 1⟩
  nanoseconds := 100

theorem check_clashingTarget : clashingTarget.check .cppWinRT = .ok () := by
  have hclass : isIdentifier clashingTarget.className = true := by decide +kernel
  have hspace : isDottedIdentifier clashingTarget.space = true := by decide +kernel
  rw [Target.check, hclass, hspace]
  rfl

theorem lower_failsByChecks_clashingScene :
    clashingTarget.check .cppWinRT = .ok () ∧ FailsByChecks clashingScene clashingTarget .cppWinRT
      ∧ clashingScene.validate = .ok ()
      ∧ clashingScene.lower clashingTarget = .error (.structural (.binding "Size") .memberClash) := by
  have hfails := lower_failsByChecks check_clashingTarget clashingScene
  have hvalid : clashingScene.validate = .ok () := by cbv
  obtain ⟨p, hp⟩ := Plan.ofGraph_of_valid clashingTarget hvalid
  have hplanned := Plan.ofGraph_planned hp
  have hclash : p.bindingFlaw? clashingBinding = some .memberClash := by
    have hfixed : Plan.fixedMembers.contains clashingBinding.name = true := by decide
    rw [Plan.bindingFlaw?, Plan.clashes, hfixed]
    simp
  have hcheck : p.checkBindings = .error (.structural (.binding "Size") .memberClash) := by
    have hvalues : p.graph.bindings.values = [clashingBinding] := by
      rw [hplanned.graph]
      rfl
    rw [Plan.checkBindings, hvalues, List.findSome?_cons, hclash]
    rfl
  exact ⟨check_clashingTarget, hfails, hvalid, (hfails.error_iff _).2 (.inr ⟨hvalid, p, hp, hcheck⟩)⟩

end Scenograph
