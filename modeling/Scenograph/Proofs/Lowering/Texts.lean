import Scenograph.Proofs.Lowering.Imports

namespace Scenograph

def Literal.text? : Literal → Option String
  | .string s => some s
  | _ => none

namespace Expr

mutual

def texts : Expr → List String
  | .var _ | .enumMember _ _ => []
  | .lit value => value.text?.toList
  | .call receiver _ args => texts receiver ++ allTexts args
  | .selfCall _ args | .staticCall _ _ args | .construct _ args => allTexts args
  | .property inner _ | .field inner _ | .notNull inner => texts inner

def allTexts : List Expr → List String
  | [] => []
  | e :: rest => texts e ++ allTexts rest

end

theorem allTexts_eq (es : List Expr) : allTexts es = es.flatMap texts := by
  induction es with
  | nil => rfl
  | cons e es ih => rw [allTexts, ih, List.flatMap_cons]

end Expr

def Statement.texts : Statement → List String
  | .declare _ _ value | .assign _ value | .eval value | .ret (some value) => value.texts
  | .setProperty receiver _ value => receiver.texts ++ value.texts
  | .ret none | .comment _ => []

namespace Node

def guardTexts (guard : Option Expr) : List String :=
  guard.toList.flatMap Expr.texts

mutual

def texts : Node → List String
  | .stmt s => s.texts
  | .block guard nodes => guardTexts guard ++ allTexts nodes

def allTexts : List Node → List String
  | [] => []
  | n :: rest => texts n ++ allTexts rest

end

theorem allTexts_eq (ns : List Node) : allTexts ns = ns.flatMap texts := by
  induction ns with
  | nil => rfl
  | cons n ns ih => rw [allTexts, ih, List.flatMap_cons]

end Node

def Tree.texts (t : Tree) : List String :=
  Node.allTexts t.nodes

def ClassUnit.texts (u : ClassUnit) : List String :=
  u.fields.flatMap (fun f => Node.guardTexts f.init) ++ u.accessors.flatMap (·.setter.texts)
    ++ u.methods.flatMap (·.body.texts)

def CompositionObject.texts : CompositionObject → List String
  | .effectBrush effect _ => effect.sources
  | .imageSurface _ uri => [uri]
  | .expressionAnimation expression references => expression :: references.map (·.name)
  | o => o.animators.map (·.property)

theorem names_of_pairSources {slots : List String} {bound : List BoundSource}
    {sources : List (String × Nat)} (h : Graph.pairSources slots bound = .ok sources)
    (hlength : slots.length = bound.length) : bound.map (·.name) = slots := by
  induction slots generalizing bound sources with
  | nil => rw [List.eq_nil_of_length_eq_zero hlength.symm, List.map_nil]
  | cons slot slots ih =>
      cases bound with
      | nil => cases hlength
      | cons b bound =>
          rw [Graph.pairSources] at h
          split at h
          · next hname =>
              obtain ⟨rest, hrest, -⟩ := bind_eq_ok.1 h
              rw [List.map_cons, ← hname, ih hrest (Nat.succ.inj hlength)]
          · cases h

theorem names_of_valid {g : Graph} (hg : g.validate = .ok ()) {i : Nat} {effect : Effect}
    {bound : List BoundSource} (ho : g.objects[i]? = some (.effectBrush effect bound)) :
    bound.map (·.name) = effect.sources := by
  obtain ⟨sources, hsources⟩ := Graph.sources_of_valid hg ho
  rw [Graph.sourcesOf] at hsources
  split at hsources
  · next hlength => exact names_of_pairSources hsources hlength
  · cases hsources

namespace Plan

section Bodies

variable {p : Plan} {o : CompositionObject} {ss body : List Statement}

theorem texts_mapM {α : Type} {f : α → Except Fault Statement} {texts : α → List String}
    (hf : ∀ item s, f item = .ok s → s.texts = texts item) {items : List α}
    (h : items.mapM f = .ok ss) : ss.flatMap Statement.texts = items.flatMap texts := by
  have hall := mapM_eq_ok.1 h
  clear h
  induction hall with
  | nil => rfl
  | cons hs _ ih => rw [List.flatMap_cons, List.flatMap_cons, hf _ _ hs, ih]

theorem texts_calling {α : Type} {f : α → Except Fault Statement} {items : List α}
    {target : α → Nat} (around : α → Expr → Statement) (texts : α → List String)
    (hf : ∀ item, f item = do return around item (← p.factoryCall (target item)))
    (haround : ∀ item name, (around item (.selfCall name [])).texts = texts item)
    (h : items.mapM f = .ok ss) : ss.flatMap Statement.texts = items.flatMap texts := by
  refine texts_mapM (fun item s hs => ?_) h
  rw [hf] at hs
  obtain ⟨e, he, hs⟩ := bind_eq_ok.1 hs
  obtain ⟨name, -, rfl⟩ := factoryCall_eq_ok he
  cases hs
  exact haround item name

theorem texts_naming (method name factory : String) :
    (Statement.eval (.call result method [.text name, .selfCall factory []])).texts = [name] := by
  simp [Statement.texts, Expr.texts, Expr.allTexts, Expr.text, result,
    Literal.text?]

theorem texts_setOnResult (name : String) (value : Literal) :
    (setOnResult name value).texts = value.text?.toList := by
  simp [setOnResult, result, Statement.texts, Expr.texts]

theorem texts_visualProperties (v : VisualProperties Float) :
    (visualProperties v).flatMap Statement.texts = [] := by
  simp [visualProperties, List.flatMap_map, texts_setOnResult, Literal.text?]

theorem texts_created (type : TypeRef) (method : String) (args : List Expr) (ss : List Statement) :
    (declareResult type (create method args) :: ss).flatMap Statement.texts
      = args.flatMap Expr.texts ++ ss.flatMap Statement.texts := by
  simp [declareResult, create, Statement.texts, Expr.texts, Expr.allTexts_eq]

theorem texts_startAnimations {animators : List Animator}
    (h : animators.mapM p.startAnimation = .ok ss) :
    ss.flatMap Statement.texts = animators.map (·.property) := by
  rw [List.map_eq_flatMap]
  exact texts_calling
    (fun (a : Animator) e => .eval (.call result "StartAnimation" [.text a.property, e]))
    (fun a => [a.property]) (fun _ => rfl) (fun _ _ => texts_naming _ _ _) h

theorem texts_insertChildren {children : List Nat} (h : p.insertChildren children = .ok ss) :
    ss.flatMap Statement.texts = [] := by
  unfold insertChildren at h
  split at h
  · cases h
    rfl
  · obtain ⟨calls, hcalls, h⟩ := bind_eq_ok.1 h
    cases h
    have hinserts := texts_calling
      (fun _ e => .eval (.call (.var "children") "InsertAtTop" [e])) (fun _ => []) (fun _ => rfl)
      (by simp [Statement.texts, Expr.texts, Expr.allTexts]) hcalls
    simp [hinserts, Statement.texts, Expr.texts, result]

theorem texts_setReferences {references : List NamedReference}
    (h : references.mapM p.setReference = .ok ss) :
    ss.flatMap Statement.texts = references.map (·.name) := by
  rw [List.map_eq_flatMap]
  refine texts_mapM (fun reference s hs => ?_) h
  obtain ⟨name, target⟩ := reference
  cases target with
  | node i =>
      rw [setReference] at hs
      obtain ⟨e, he, hs⟩ := bind_eq_ok.1 hs
      obtain ⟨factory, -, rfl⟩ := factoryCall_eq_ok he
      cases hs
      exact texts_naming _ _ _
  | theme =>
      cases hs
      exact texts_naming _ _ _

theorem texts_setDuration {s : Statement} (h : p.setDuration = .ok s) : s.texts = [] := by
  rw [setDuration] at h
  obtain ⟨ticks, -, h⟩ := bind_eq_ok.1 h
  cases h
  exact texts_setOnResult _ _

theorem texts_insertKeyFrame (progress : Float) (value : Literal) (easing : Easing Float) :
    (insertKeyFrame progress value easing).texts = value.text?.toList := by
  have heasing : (easingArgs easing).flatMap Expr.texts = [] := by
    cases easing <;> simp [easingArgs, create, Expr.texts, Expr.allTexts, Literal.text?]
  have hnumber : (Expr.number progress).texts = [] := rfl
  simp [insertKeyFrame, result, Statement.texts, Expr.texts, Expr.allTexts_eq, hnumber, heasing]

theorem texts_effectSettings (p : Plan) (holder : String) (effect : Effect) :
    (p.effectSettings holder effect).flatMap Statement.texts = effect.sources := by
  cases effect with
  | gaussianBlur amount source =>
      cases amount <;> cases source <;>
        simp [effectSettings, Effect.sources, Statement.texts, Expr.texts, Expr.allTexts,
          Expr.number, Expr.text, sourceParameter, Literal.text?]
  | composite mode sources =>
      simp [effectSettings, Effect.sources, List.flatMap_map, Statement.texts, Expr.texts,
        Expr.allTexts, Expr.text, sourceParameter, Literal.text?]

theorem texts_effectBrush (hp : p.graph.validate = .ok ()) {i : Nat} {type : TypeRef}
    {effect : Effect} {bound : List BoundSource}
    (ho : p.graph.objects[i]? = some (.effectBrush effect bound))
    (h : p.effectBrush i type = .ok body) :
    body.flatMap Statement.texts = effect.sources ++ effect.sources := by
  rw [effectBrush, Graph.orderedSources_of_valid hp ho, ok_bind] at h
  obtain ⟨links, hlinks, h⟩ := bind_eq_ok.1 h
  cases h
  have hnames : links.flatMap Statement.texts = effect.sources := by
    have hlink := texts_calling
      (fun (source : String × Nat) e =>
        .eval (.call result "SetSourceParameter" [.text source.1, e]))
      (fun source => [source.1]) (fun _ => rfl) (fun _ _ => texts_naming _ _ _) hlinks
    rw [hlink, List.flatMap_map, ← List.map_eq_flatMap, names_of_valid hp ho]
  simp [hnames, texts_effectSettings, declareResult, create, Statement.texts, Expr.texts,
    Expr.allTexts]

theorem mem_texts_objectStatements (hp : p.graph.validate = .ok ()) {i : Nat}
    (ho : p.graph.objects[i]? = some o) (h : p.objectStatements i o = .ok body) (s : String) :
    s ∈ body.flatMap Statement.texts ↔ s ∈ o.texts := by
  cases o with
  | containerVisual properties children animators =>
      obtain ⟨inserts, hinserts, h⟩ := bind_eq_ok.1 h
      obtain ⟨animations, hanimations, h⟩ := bind_eq_ok.1 h
      cases h
      simp only [texts_created, List.flatMap_append, texts_visualProperties,
        texts_insertChildren hinserts, texts_startAnimations hanimations]
      rfl
  | spriteVisual properties brush animators =>
      obtain ⟨sets, hsets, h⟩ := bind_eq_ok.1 h
      obtain ⟨animations, hanimations, h⟩ := bind_eq_ok.1 h
      cases h
      have hset : sets.flatMap Statement.texts = [] := by
        rw [texts_calling (fun _ e => .setProperty result "Brush" e) (fun _ => []) (fun _ => rfl)
          (by simp [result, Statement.texts, Expr.texts, Expr.allTexts]) hsets]
        simp
      simp only [texts_created, List.flatMap_append, texts_visualProperties, hset,
        texts_startAnimations hanimations]
      rfl
  | colorBrush color animators =>
      obtain ⟨animations, hanimations, h⟩ := bind_eq_ok.1 h
      cases h
      rw [texts_created, texts_startAnimations hanimations]
      rfl
  | effectBrush effect sources =>
      rw [texts_effectBrush hp ho h, List.mem_append, or_self]
      rfl
  | surfaceBrush surface =>
      obtain ⟨e, he, h⟩ := bind_eq_ok.1 h
      obtain ⟨name, -, rfl⟩ := factoryCall_eq_ok he
      cases h
      rw [texts_created]
      rfl
  | imageSurface assetId uri =>
      cases h
      simp [declareResult, CompositionObject.texts, Statement.texts,
        Expr.texts, Expr.allTexts, Expr.text, Literal.text?]
  | scalarAnimation keyFrames =>
      obtain ⟨duration, hduration, h⟩ := bind_eq_ok.1 h
      cases h
      rw [texts_created, List.flatMap_cons, texts_setDuration hduration, List.flatMap_map]
      simp [texts_insertKeyFrame, Literal.text?, CompositionObject.texts,
        CompositionObject.animators]
  | vector2Animation keyFrames =>
      obtain ⟨duration, hduration, h⟩ := bind_eq_ok.1 h
      cases h
      rw [texts_created, List.flatMap_cons, texts_setDuration hduration, List.flatMap_map]
      simp [texts_insertKeyFrame, Literal.text?, CompositionObject.texts,
        CompositionObject.animators]
  | expressionAnimation expression references =>
      obtain ⟨sets, hsets, h⟩ := bind_eq_ok.1 h
      cases h
      rw [texts_created, texts_setReferences hsets]
      rfl

theorem texts_factory {i : Nat} {m : Method} (h : p.factory i = .ok m) :
    ∃ o body, p.graph.objects[i]? = some o ∧ p.objectStatements i o = .ok body
      ∧ m.body.texts = body.flatMap Statement.texts := by
  obtain ⟨o, name, body, ho, -, hbody, rfl⟩ := factory_eq_ok h
  refine ⟨o, body, ho, hbody, ?_⟩
  have hstatements : (body.map Node.stmt).flatMap Node.texts = body.flatMap Statement.texts := by
    simp [List.flatMap_map, Node.texts]
  cases hshared : p.shared.contains i <;>
    simp [Tree.texts, ordinary, factoryNodes, Node.allTexts_eq, hstatements, keptNode, Node.texts,
      Node.guardTexts, Statement.texts, Expr.texts, result]

end Bodies

section Members

variable {p : Plan}

theorem texts_insertValue (b : Binding) (name : String) :
    (insertValue b (.var name)).texts = [b.name] := by
  cases h : convertsColor b <;>
    simp [insertValue, storedValue, h, themeSet, Expr.text, Statement.texts,
      Expr.texts, Expr.allTexts, Literal.text?]

theorem texts_bindingAccessor (b : Binding) : (bindingAccessor b).setter.texts = [b.name] := by
  simp only [bindingAccessor, Tree.texts, Node.allTexts, Node.texts, texts_insertValue]
  simp [Node.guardTexts, themeSet, Statement.texts, Expr.texts]

theorem texts_ensureThemeMethod (p : Plan) :
    p.ensureThemeMethod.body.texts = p.graph.bindings.values.map (·.name) := by
  have hseeds : ((p.graph.bindings.values.map seedStatement).map Node.stmt).flatMap Node.texts
      = p.graph.bindings.values.map (·.name) := by
    rw [List.flatMap_map, List.flatMap_map, List.map_eq_flatMap]
    simp only [Node.texts, seedStatement, texts_insertValue]
  rw [ensureThemeMethod, ordinary, Tree.texts, Node.allTexts_eq, List.flatMap_append,
    List.flatMap_append, hseeds]
  simp [keptNode, themeSet, create, Node.texts, Node.allTexts, Node.guardTexts, Statement.texts,
    Expr.texts, Expr.allTexts]

theorem text?_valueLiteral (value : PropertyValue) : (valueLiteral value).text? = none := by
  cases value <;> rfl

theorem texts_classFields (p : Plan) (usesTheme : Bool) :
    ∀ f ∈ p.classFields usesTheme, Node.guardTexts f.init = [] := by
  cases usesTheme <;>
    simp [classFields, Node.guardTexts, Expr.texts, text?_valueLiteral]

end Members

end Plan

namespace Parts

variable {x : Parts} {g : Graph} {t : Target}

theorem mem_texts_factories (hx : x.Of g t) (s : String) :
    s ∈ x.factories.flatMap (·.body.texts) ↔ ∃ o, g.Reaches o ∧ s ∈ o.texts := by
  have hgraph := hx.planned.graph
  have hvalid : x.plan.graph.validate = .ok () := hgraph ▸ hx.planned.valid
  rw [List.mem_flatMap, ← hgraph]
  constructor
  · rintro ⟨m, hm, hs⟩
    obtain ⟨i, hi, hfactory⟩ := exists_of_mem_right hx.factories hm
    obtain ⟨o, body, ho, hbody, htexts⟩ := Plan.texts_factory hfactory
    rw [htexts, Plan.mem_texts_objectStatements hvalid ho hbody] at hs
    exact ⟨o, reaches_of_mem hx hi ho, hs⟩
  · rintro ⟨o, ⟨i, hi, ho⟩, hs⟩
    rw [hgraph] at hi
    obtain ⟨m, hm, hfactory⟩ := exists_of_mem_left hx.factories (hx.planned.mem_order.2 hi)
    obtain ⟨o', body, ho', hbody, htexts⟩ := Plan.texts_factory hfactory
    cases ho.symm.trans ho'
    refine ⟨m, hm, ?_⟩
    rw [htexts, Plan.mem_texts_objectStatements hvalid ho hbody]
    exact hs

theorem texts_fields (hx : x.Of g t) :
    x.unit.fields.flatMap (fun f => Node.guardTexts f.init) = [] := by
  rw [List.flatMap_eq_nil_iff]
  refine List.forall_mem_append.2 ⟨x.plan.texts_classFields x.usesTheme, fun f hf => ?_⟩
  obtain ⟨i, -, hfield⟩ := exists_of_mem_right hx.sharedFields hf
  obtain ⟨o, name, -, -, rfl⟩ := Plan.sharedField_eq_ok hfield
  rfl

theorem texts_accessors (hx : x.Of g t) :
    x.unit.accessors.flatMap (·.setter.texts) = g.bindings.values.map (·.name) := by
  rw [← hx.planned.graph]
  cases htheme : x.usesTheme with
  | false => simp [unit, Plan.accessorList, htheme, values_eq_nil hx htheme]
  | true =>
      simp only [unit, Plan.accessorList, htheme, if_true, List.flatMap_map,
        Plan.texts_bindingAccessor, ← List.map_eq_flatMap]

theorem texts_fixedMethods (x : Parts) (s : String)
    (h : s ∈ (x.plan.constructorMethod x.rootFactory :: (x.plan.getterMethods x.ticks
      ++ x.plan.themeMethodList x.usesTheme)).flatMap (·.body.texts)) :
    s ∈ x.plan.graph.bindings.values.map (·.name) := by
  have hconstructor : (x.plan.constructorMethod x.rootFactory).body.texts = [] := by
    simp [Plan.constructorMethod, Tree.texts, Node.allTexts, Node.texts, Statement.texts,
      Expr.texts, Expr.allTexts]
  have hgetters : (x.plan.getterMethods x.ticks).flatMap (·.body.texts) = [] := by
    simp [Plan.getterMethods, Plan.getterMethod, Plan.ordinary, Tree.texts, Node.allTexts,
      Node.texts, Statement.texts, Expr.texts, Literal.text?]
  have hcolor : Plan.colorMethod.body.texts = [] := by
    simp [Plan.colorMethod, Plan.ordinary, Tree.texts, Node.allTexts, Node.texts, Statement.texts,
      Expr.texts, Expr.allTexts]
  rw [List.flatMap_cons, List.flatMap_append, hconstructor, hgetters, List.nil_append,
    List.nil_append, Plan.themeMethodList] at h
  split at h
  · rw [List.flatMap_cons, Plan.texts_ensureThemeMethod, List.mem_append] at h
    refine h.resolve_right fun hmem => ?_
    split at hmem
    · simp [hcolor] at hmem
    · cases hmem
  · cases h

theorem mem_texts (hx : x.Of g t) (s : String) :
    s ∈ x.unit.texts ↔ (∃ o, g.Reaches o ∧ s ∈ o.texts) ∨ s ∈ g.bindings.values.map (·.name) := by
  have hmethods : x.unit.methods = (x.plan.constructorMethod x.rootFactory
      :: (x.plan.getterMethods x.ticks ++ x.plan.themeMethodList x.usesTheme)) ++ x.factories := rfl
  rw [ClassUnit.texts, texts_fields hx, List.nil_append, texts_accessors hx, hmethods,
    List.flatMap_append, List.mem_append, List.mem_append, mem_texts_factories hx]
  have hfixed := x.texts_fixedMethods s
  rw [hx.planned.graph] at hfixed
  rw [← or_assoc, or_iff_left_of_imp hfixed, or_comm]

end Parts

end Scenograph
