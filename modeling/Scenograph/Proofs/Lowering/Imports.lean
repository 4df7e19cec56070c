import Mathlib.Tactic.IntervalCases
import Scenograph.Proofs.Code.Mentions
import Scenograph.Proofs.Lowering.Members
import Scenograph.Proofs.Lowering.Totality

namespace Scenograph

namespace Language

def timeSpace : Language → String
  | .csharp => "System"
  | .cppWinRT | .cppCX => "Windows.Foundation"

def numericsSpace : Language → String
  | .csharp => "System.Numerics"
  | .cppWinRT | .cppCX => "Windows.Foundation.Numerics"

theorem builtInNamespace?_of_ne_color (l : Language) {b : BuiltIn} (hb : b ≠ .color) {space : String}
    (h : l.builtInNamespace? b = some space) : space = l.timeSpace ∨ space = l.numericsSpace := by
  cases l <;> cases b <;> simp_all [builtInNamespace?, timeSpace, numericsSpace]

end Language

def Target.spaces (t : Target) (writer : Language) : List String :=
  [t.compositionSpace, writer.timeSpace, writer.numericsSpace, "Windows.UI", t.mediaSpace,
    "Microsoft.Graphics.Canvas.Effects", "Microsoft.Graphics.Canvas"]

theorem Target.spaces_nodup (t : Target) (writer : Language) : (t.spaces writer).Nodup := by
  cases writer <;> cases hmodern : t.modern <;>
    simp [spaces, compositionSpace, mediaSpace, Language.timeSpace, Language.numericsSpace, hmodern]

theorem ClassUnit.mem_namespaces {u : ClassUnit} {writer : Language} {space : String} :
    space ∈ u.namespaces writer ↔ ∃ type ∈ u.types, writer.namespaceOf? type = some space := by
  rw [namespaces, Catalog.mem_sortedTexts, List.mem_filterMap]

def Graph.Reaches (g : Graph) (o : CompositionObject) : Prop :=
  ∃ i, g.Reachable i ∧ g.objects[i]? = some o

namespace Plan

inductive Common (p : Plan) : TypeRef → Prop where
  | composition (name : String) : Common p (p.compositionType name)
  | builtIn {b : BuiltIn} (h : b ≠ .color) : Common p (.builtIn b)

inductive Own (p : Plan) : CompositionObject → TypeRef → Prop where
  | color (c : Color) (animators : List Animator) :
      Own p (.colorBrush c animators) (.builtIn .color)
  | surface (assetId uri : String) : Own p (.imageSurface assetId uri) (p.objectType .imageSurface)
  | effect (effect : Effect) (sources : List BoundSource) :
      Own p (.effectBrush effect sources) (.imported effectsSpace effect.kind.name)
  | mode (mode : CompositeMode) (names : List String) (sources : List BoundSource) :
      Own p (.effectBrush (.composite mode names) sources)
        (.importedValue canvasSpace "CanvasComposite")

def Uses (p : Plan) (o : CompositionObject) (type : TypeRef) : Prop :=
  p.Common type ∨ p.Own o type

section Bodies

variable {p : Plan} {o : CompositionObject} {ss body : List Statement}

theorem uses_composition (name : String) : p.Uses o (p.compositionType name) :=
  .inl (.composition name)

theorem uses_builtIn {b : BuiltIn} (h : b ≠ .color) : p.Uses o (.builtIn b) :=
  .inl (.builtIn h)

theorem uses_objectType (o : CompositionObject) : p.Uses o (p.objectType o.kind) := by
  cases o with
  | imageSurface assetId uri => exact .inr (.surface assetId uri)
  | _ => exact uses_composition _

theorem uses_calling {α : Type} {f : α → Except Fault Statement} {items : List α} {target : α → Nat}
    (around : α → Expr → Statement)
    (hf : ∀ item, f item = do return around item (← p.factoryCall (target item)))
    (haround : ∀ item name, ∀ type ∈ (around item (.selfCall name [])).types, p.Uses o type)
    (h : items.mapM f = .ok ss) : ∀ s ∈ ss, ∀ type ∈ s.types, p.Uses o type := by
  intro s hs
  obtain ⟨item, e, he, rfl⟩ := mem_calling around hf h hs
  obtain ⟨name, -, rfl⟩ := factoryCall_eq_ok he
  exact haround item name

theorem uses_visualProperties (v : VisualProperties Float) :
    ∀ s ∈ visualProperties v, ∀ type ∈ s.types, p.Uses o type := by
  intro s hs
  simp only [visualProperties, List.mem_append, List.mem_map] at hs
  rcases hs with (((((⟨x, -, rfl⟩ | ⟨x, -, rfl⟩) | ⟨x, -, rfl⟩) | ⟨x, -, rfl⟩) | ⟨x, -, rfl⟩)
    | ⟨x, -, rfl⟩) | ⟨x, -, rfl⟩ <;>
    simp [setOnResult, result, Statement.types, Expr.types, Literal.type?, uses_builtIn]

theorem uses_created {method : String} {args : List Expr}
    (hargs : ∀ e ∈ args, ∀ type ∈ e.types, p.Uses o type)
    (hss : ∀ s ∈ ss, ∀ type ∈ s.types, p.Uses o type) :
    ∀ s ∈ declareResult (p.objectType o.kind) (create method args) :: ss,
      ∀ type ∈ s.types, p.Uses o type := by
  refine List.forall_mem_cons.2 ⟨List.forall_mem_cons.2 ⟨uses_objectType o, ?_⟩, hss⟩
  simpa [create, Expr.types, Expr.allTypes_eq] using fun type e he => hargs e he type

theorem uses_naming (method name factory : String) :
    ∀ type ∈ (Statement.eval (.call result method [.text name, .selfCall factory []])).types,
      p.Uses o type := by
  simp [result, Expr.text, Statement.types, Expr.types, Expr.allTypes, Literal.type?, uses_builtIn]

theorem uses_startAnimations {animators : List Animator}
    (h : animators.mapM p.startAnimation = .ok ss) : ∀ s ∈ ss, ∀ type ∈ s.types, p.Uses o type :=
  uses_calling
    (fun (a : Animator) e => .eval (.call result "StartAnimation" [.text a.property, e]))
    (fun _ => rfl) (fun _ _ => uses_naming _ _ _) h

theorem uses_insertChildren {children : List Nat} (h : p.insertChildren children = .ok ss) :
    ∀ s ∈ ss, ∀ type ∈ s.types, p.Uses o type := by
  unfold insertChildren at h
  split at h
  · cases h
    simp
  · obtain ⟨calls, hcalls, h⟩ := bind_eq_ok.1 h
    cases h
    refine List.forall_mem_cons.2 ⟨?_, ?_⟩
    · simp [result, Statement.types, Expr.types, uses_composition]
    · exact uses_calling (fun _ e => .eval (.call (.var "children") "InsertAtTop" [e]))
        (fun _ => rfl) (by simp [Statement.types, Expr.types, Expr.allTypes]) hcalls

theorem uses_setReferences {references : List NamedReference}
    (h : references.mapM p.setReference = .ok ss) : ∀ s ∈ ss, ∀ type ∈ s.types, p.Uses o type := by
  intro s hs
  obtain ⟨⟨name, target⟩, _, hstatement⟩ := exists_of_mem_right (mapM_eq_ok.1 h) hs
  cases target with
  | node i =>
      rw [setReference] at hstatement
      obtain ⟨e, he, hstatement⟩ := bind_eq_ok.1 hstatement
      obtain ⟨factory, -, rfl⟩ := factoryCall_eq_ok he
      cases hstatement
      exact uses_naming _ _ _
  | theme =>
      cases hstatement
      exact uses_naming _ _ _

theorem uses_setDuration {s : Statement} (h : p.setDuration = .ok s) :
    ∀ type ∈ s.types, p.Uses o type := by
  rw [setDuration] at h
  obtain ⟨ticks, -, h⟩ := bind_eq_ok.1 h
  cases h
  simp [setOnResult, result, Statement.types, Expr.types, Literal.type?, uses_builtIn]

theorem uses_easingArgs (easing : Easing Float) :
    ∀ e ∈ easingArgs easing, ∀ type ∈ e.types, p.Uses o type := by
  cases easing <;>
    simp [easingArgs, create, Expr.types, Expr.allTypes, Literal.type?, uses_builtIn]

theorem uses_insertKeyFrame (progress : Float) {value : Literal} {b : BuiltIn}
    (hvalue : value.type? = some b) (hb : b ≠ .color) (easing : Easing Float) :
    ∀ type ∈ (insertKeyFrame progress value easing).types, p.Uses o type := by
  have htypes : (insertKeyFrame progress value easing).types
      = .builtIn .float :: .builtIn b :: (easingArgs easing).flatMap Expr.types := by
    rw [insertKeyFrame, Statement.types, Expr.types, Expr.allTypes_eq, List.flatMap_cons,
      List.flatMap_cons, Expr.types, hvalue]
    rfl
  rw [htypes]
  refine List.forall_mem_cons.2 ⟨uses_builtIn (by decide), List.forall_mem_cons.2
    ⟨uses_builtIn hb, fun type htype => ?_⟩⟩
  obtain ⟨e, he, htype⟩ := List.mem_flatMap.1 htype
  exact uses_easingArgs easing e he type htype

theorem uses_sourceParameter (name : String) :
    ∀ type ∈ (p.sourceParameter name).types, p.Uses o type := by
  simp [sourceParameter, Expr.text, Expr.types, Expr.allTypes, Literal.type?, uses_builtIn,
    uses_composition]

theorem uses_effectSettings (holder : String) (effect : Effect) (sources : List BoundSource) :
    ∀ s ∈ p.effectSettings holder effect, ∀ type ∈ s.types,
      p.Uses (.effectBrush effect sources) type := by
  intro s hs
  cases effect with
  | gaussianBlur amount source =>
      rcases List.mem_append.1 hs with hs | hs
      · obtain ⟨amount, _, rfl⟩ := List.mem_map.1 hs
        simp [Statement.types, Expr.types, Expr.number, Literal.type?, uses_builtIn]
      · obtain ⟨source, _, rfl⟩ := List.mem_map.1 hs
        simpa [Statement.types, Expr.types] using uses_sourceParameter source
  | composite mode names =>
      rcases List.mem_cons.1 hs with rfl | hs
      · have hmode : p.Uses (.effectBrush (.composite mode names) sources)
            (.importedValue canvasSpace "CanvasComposite") := .inr (.mode mode names sources)
        simpa [Statement.types, Expr.types] using hmode
      · obtain ⟨source, _, rfl⟩ := List.mem_map.1 hs
        simpa [Statement.types, Expr.types, Expr.allTypes] using uses_sourceParameter source

theorem effectBrush_eq_ok {i : Nat} {type : TypeRef} {effect : Effect} {sources : List BoundSource}
    (ho : p.graph.objects[i]? = some (.effectBrush effect sources))
    (h : p.effectBrush i type = .ok body) :
    ∃ (bound : List (String × Nat)) (links : List Statement), bound.mapM p.setSource = .ok links
      ∧ body = .declare (.imported effectsSpace effect.kind.name) (lowerFirst effect.kind.name)
            (.construct (.imported effectsSpace effect.kind.name) [])
          :: (p.effectSettings (lowerFirst effect.kind.name) effect
            ++ [.declare (p.compositionType "CompositionEffectFactory") "effectFactory"
                  (create "CreateEffectFactory" [.var (lowerFirst effect.kind.name)]),
                declareResult type (.call (.var "effectFactory") "CreateBrush" [])]
            ++ links) := by
  rw [effectBrush] at h
  obtain ⟨⟨effect', bound⟩, hsources, h⟩ := bind_eq_ok.1 h
  obtain ⟨links, hlinks, h⟩ := bind_eq_ok.1 h
  -- the effect is looked up again together with the sources
  have heffect : effect' = effect := by
    rw [Graph.orderedSources, Graph.get_eq_ok.2 ho, ok_bind] at hsources
    dsimp only at hsources
    split at hsources
    · cases hsources
      rfl
    · cases hsources
  subst heffect
  cases h
  exact ⟨bound, links, hlinks, rfl⟩

theorem uses_effectBrush {i : Nat} {effect : Effect} {sources : List BoundSource}
    (ho : p.graph.objects[i]? = some (.effectBrush effect sources))
    (h : p.effectBrush i (p.objectType .effectBrush) = .ok body) :
    ∀ s ∈ body, ∀ type ∈ s.types, p.Uses (.effectBrush effect sources) type := by
  obtain ⟨bound, links, hlinks, rfl⟩ := effectBrush_eq_ok ho h
  have heffect : p.Uses (.effectBrush effect sources) (.imported effectsSpace effect.kind.name) :=
    .inr (.effect effect sources)
  have hlink := uses_calling (o := .effectBrush effect sources)
    (fun (source : String × Nat) e =>
      .eval (.call result "SetSourceParameter" [.text source.1, e]))
    (fun _ => rfl) (fun _ _ => uses_naming _ _ _) hlinks
  refine List.forall_mem_cons.2 ⟨?_, List.forall_mem_append.2 ⟨List.forall_mem_append.2
    ⟨uses_effectSettings _ effect sources, ?_⟩, hlink⟩⟩
  · simpa [Statement.types, Expr.types, Expr.allTypes] using heffect
  · have htype : p.Uses (.effectBrush effect sources) (p.objectType .effectBrush) :=
      uses_objectType (.effectBrush effect sources)
    simpa [declareResult, create, Statement.types, Expr.types, Expr.allTypes, uses_composition]
      using htype

theorem uses_objectStatements {i : Nat} (ho : p.graph.objects[i]? = some o)
    (h : p.objectStatements i o = .ok body) : ∀ s ∈ body, ∀ type ∈ s.types, p.Uses o type := by
  have hnone : ∀ e ∈ ([] : List Expr), ∀ type ∈ e.types, p.Uses o type := by simp
  cases o with
  | containerVisual properties children animators =>
      obtain ⟨inserts, hinserts, h⟩ := bind_eq_ok.1 h
      obtain ⟨animations, hanimations, h⟩ := bind_eq_ok.1 h
      cases h
      exact uses_created hnone (List.forall_mem_append.2 ⟨List.forall_mem_append.2
        ⟨uses_visualProperties properties, uses_insertChildren hinserts⟩,
        uses_startAnimations hanimations⟩)
  | spriteVisual properties brush animators =>
      obtain ⟨sets, hsets, h⟩ := bind_eq_ok.1 h
      obtain ⟨animations, hanimations, h⟩ := bind_eq_ok.1 h
      cases h
      have hset := uses_calling (o := .spriteVisual properties brush animators)
        (fun _ e => .setProperty result "Brush" e) (fun _ => rfl)
        (by simp [result, Statement.types, Expr.types, Expr.allTypes]) hsets
      exact uses_created hnone (List.forall_mem_append.2 ⟨List.forall_mem_append.2
        ⟨uses_visualProperties properties, hset⟩, uses_startAnimations hanimations⟩)
  | colorBrush color animators =>
      obtain ⟨animations, hanimations, h⟩ := bind_eq_ok.1 h
      cases h
      refine uses_created ?_ (uses_startAnimations hanimations)
      have hcolor : p.Uses (.colorBrush color animators) (.builtIn .color) :=
        .inr (.color color animators)
      simpa [Expr.types, Literal.type?] using hcolor
  | effectBrush effect sources => exact uses_effectBrush ho h
  | surfaceBrush surface =>
      obtain ⟨e, he, h⟩ := bind_eq_ok.1 h
      obtain ⟨name, -, rfl⟩ := factoryCall_eq_ok he
      cases h
      exact uses_created (by simp [Expr.types, Expr.allTypes]) (by simp)
  | imageSurface assetId uri =>
      cases h
      have htype := uses_objectType (p := p) (.imageSurface assetId uri)
      simpa [declareResult, Statement.types, Expr.types, Expr.allTypes, Expr.text, Literal.type?,
        uses_builtIn] using htype
  | scalarAnimation keyFrames =>
      obtain ⟨duration, hduration, h⟩ := bind_eq_ok.1 h
      cases h
      exact uses_created hnone (List.forall_mem_cons.2 ⟨uses_setDuration hduration,
        List.forall_mem_map.2 fun k _ => uses_insertKeyFrame _ rfl (by decide) _⟩)
  | vector2Animation keyFrames =>
      obtain ⟨duration, hduration, h⟩ := bind_eq_ok.1 h
      cases h
      exact uses_created hnone (List.forall_mem_cons.2 ⟨uses_setDuration hduration,
        List.forall_mem_map.2 fun k _ => uses_insertKeyFrame _ rfl (by decide) _⟩)
  | expressionAnimation expression references =>
      obtain ⟨sets, hsets, h⟩ := bind_eq_ok.1 h
      cases h
      refine uses_created ?_ (uses_setReferences hsets)
      simp [Expr.text, Expr.types, Literal.type?, uses_builtIn]

theorem mem_of_own {i : Nat} (ho : p.graph.objects[i]? = some o)
    (h : p.objectStatements i o = .ok body) {type : TypeRef} (hown : p.Own o type) :
    type ∈ p.objectType o.kind :: body.flatMap Statement.types := by
  cases hown with
  | color c animators =>
      obtain ⟨animations, -, h⟩ := bind_eq_ok.1 h
      cases h
      simp [declareResult, create, Statement.types, Expr.types, Expr.allTypes, Literal.type?]
  | surface assetId uri => exact List.mem_cons_self ..
  | effect effect sources =>
      obtain ⟨bound, links, -, rfl⟩ := effectBrush_eq_ok ho h
      simp [Statement.types]
  | mode mode names sources =>
      obtain ⟨bound, links, -, rfl⟩ := effectBrush_eq_ok ho h
      simp [effectSettings, Statement.types, Expr.types]

theorem types_factoryNodes (shared : Bool) (name : String) (body : List Statement) :
    Node.allTypes (factoryNodes shared name body) = body.flatMap Statement.types := by
  have hbody : (body.map Node.stmt).flatMap Node.types = body.flatMap Statement.types := by
    simp [List.flatMap_map, Node.types]
  cases shared <;>
    simp [Node.allTypes_eq, factoryNodes, hbody, keptNode, Node.types, Node.allTypes,
      Node.guardTypes, Statement.types, Expr.types, result]

theorem types_factory {i : Nat} {m : Method} (h : p.factory i = .ok m) :
    ∃ o body, p.graph.objects[i]? = some o ∧ p.objectStatements i o = .ok body
      ∧ m.types = p.objectType o.kind :: body.flatMap Statement.types := by
  obtain ⟨o, name, body, ho, -, hbody, rfl⟩ := factory_eq_ok h
  refine ⟨o, body, ho, hbody, ?_⟩
  simp [Method.types, ordinary, Tree.types, Node.guardTypes, types_factoryNodes]

end Bodies

inductive Sourced (p : Plan) : TypeRef → Prop where
  | common {type : TypeRef} (h : p.Common type) : Sourced p type
  | shown {b : Binding} (hb : b ∈ p.graph.bindings.values) : Sourced p (exposedType b.exposed)
  | object {o : CompositionObject} {type : TypeRef} (ho : p.graph.Reaches o) (h : p.Own o type) :
      Sourced p type

section Members

variable {p : Plan}

theorem sourced_composition (name : String) : p.Sourced (p.compositionType name) :=
  .common (.composition name)

theorem sourced_builtIn {b : BuiltIn} (h : b ≠ .color) : p.Sourced (.builtIn b) :=
  .common (.builtIn h)

theorem Uses.sourced {o : CompositionObject} {type : TypeRef} (h : p.Uses o type)
    (ho : p.graph.Reaches o) : p.Sourced type := by
  rcases h with h | h
  · exact .common h
  · exact .object ho h

theorem exposedType_of_ne_color {kind : ValueKind} (h : kind ≠ .color) :
    ∃ b, b ≠ .color ∧ exposedType kind = .builtIn b := by
  cases kind with
  | color => exact absurd rfl h
  | _ => exact ⟨_, by decide, rfl⟩

theorem types_default {b : Binding} (hflaw : b.flaw? = none) :
    (Expr.lit (valueLiteral b.default)).types = [exposedType b.exposed] := by
  have hkind : b.default.kind = b.exposed := by
    by_contra hkind
    rw [Binding.flaw?] at hflaw
    split_ifs at hflaw
  rw [← hkind]
  cases b.default <;> rfl

theorem types_insertValue (b : Binding) (name : String) :
    (insertValue b (.var name)).types = [.builtIn .string] := by
  cases h : convertsColor b <;>
    simp [insertValue, storedValue, h, themeSet, Expr.text, Statement.types, Expr.types,
      Expr.allTypes, Literal.type?]

theorem types_bindingAccessor (b : Binding) :
    (bindingAccessor b).types = [exposedType b.exposed, .builtIn .string] := by
  have hblock : (Node.block (some (.notNull themeSet)) [.stmt (insertValue b (.var "value"))]).types
      = [.builtIn .string] := by
    rw [Node.types, Node.allTypes, Node.types, types_insertValue]
    simp [Node.guardTypes, Node.allTypes, Expr.types, themeSet]
  rw [Accessor.types, bindingAccessor, Tree.types, Node.allTypes, Node.allTypes, hblock]
  simp [Node.guardTypes, Node.allTypes, Node.types, Statement.types, Expr.types]

theorem types_ensureThemeMethod (p : Plan) :
    p.ensureThemeMethod.types = p.compositionType "CompositionPropertySet"
      :: p.graph.bindings.values.flatMap fun _ => [.builtIn .string] := by
  have hfirst : [keptNode "_themeProperties", .stmt (.assign "_themeProperties"
      (create "CreatePropertySet" []))].flatMap Node.types = [] := by
    simp [keptNode, create, Node.types, Node.allTypes, Node.guardTypes, Statement.types, Expr.types,
      Expr.allTypes]
  have hseeds : ((p.graph.bindings.values.map seedStatement).map Node.stmt).flatMap Node.types
      = p.graph.bindings.values.flatMap fun _ => [.builtIn .string] := by
    simp only [List.flatMap_map, Node.types, seedStatement, types_insertValue]
  have hlast : [Node.stmt (.ret (some themeSet))].flatMap Node.types = [] := by
    simp [themeSet, Node.types, Statement.types, Expr.types]
  simp only [Method.types, ensureThemeMethod, ordinary, Tree.types, Node.allTypes_eq,
    List.flatMap_append, hfirst, hseeds, hlast]
  simp [Node.guardTypes]

theorem types_colorMethod :
    colorMethod.types = [.builtIn .vector4, .builtIn .color, .builtIn .vector4] := by
  simp [Method.types, colorMethod, ordinary, Tree.types, Node.guardTypes, Node.allTypes, Node.types,
    Statement.types, Expr.types, Expr.allTypes]

theorem sourced_classFields (hbindings : p.graph.bindings.Built) (usesTheme : Bool) :
    ∀ f ∈ p.classFields usesTheme, ∀ type ∈ f.types, p.Sourced type := by
  have hcore : ∀ f ∈ p.classFields false, ∀ type ∈ f.types, p.Sourced type := by
    simp [classFields, Field.types, sourced_composition]
  cases usesTheme with
  | false => exact hcore
  | true =>
      refine List.forall_mem_append.2 ⟨hcore, List.forall_mem_cons.2 ⟨?_, ?_⟩⟩
      · simp [Field.types, sourced_composition]
      · refine List.forall_mem_map.2 fun b hb => ?_
        have htypes := types_default (hbindings.flaw?_eq_none hb)
        simp [Field.types, htypes, Sourced.shown hb]

theorem sourced_constructorMethod (factory : String) :
    ∀ type ∈ (p.constructorMethod factory).types, p.Sourced type := by
  simp [Method.types, constructorMethod, Tree.types, Node.guardTypes, Node.allTypes, Node.types,
    Statement.types, Expr.types, Expr.allTypes, sourced_builtIn, sourced_composition]

theorem sourced_getterMethods (ticks : Int) :
    ∀ m ∈ p.getterMethods ticks, ∀ type ∈ m.types, p.Sourced type := by
  simp [getterMethods, getterMethod, Method.types, ordinary, Tree.types, Node.guardTypes,
    Node.allTypes, Node.types, Statement.types, Expr.types, Literal.type?, sourced_builtIn,
    sourced_composition]

theorem sourced_themeMethodList (usesTheme : Bool) :
    ∀ m ∈ p.themeMethodList usesTheme, ∀ type ∈ m.types, p.Sourced type := by
  cases usesTheme with
  | false => simp [themeMethodList]
  | true =>
      refine List.forall_mem_cons.2 ⟨?_, ?_⟩
      · rw [types_ensureThemeMethod]
        refine List.forall_mem_cons.2 ⟨sourced_composition _, fun type htype => ?_⟩
        obtain ⟨_, _, htype⟩ := List.mem_flatMap.1 htype
        rw [List.mem_singleton.1 htype]
        exact sourced_builtIn (by decide)
      · split
        · next hany =>
            obtain ⟨b, hb, hconverts⟩ := List.any_eq_true.1 hany
            simp only [convertsColor, Bool.and_eq_true, beq_iff_eq] at hconverts
            have hcolor := Sourced.shown hb
            rw [hconverts.1] at hcolor
            simpa [types_colorMethod, exposedType, sourced_builtIn] using hcolor
        · simp

theorem sourced_accessorList (usesTheme : Bool) :
    ∀ a ∈ p.accessorList usesTheme, ∀ type ∈ a.types, p.Sourced type := by
  cases usesTheme with
  | false => simp [accessorList]
  | true =>
      refine List.forall_mem_map.2 fun b hb => ?_
      simp [types_bindingAccessor, Sourced.shown hb, sourced_builtIn]

end Members

end Plan

namespace Parts

variable {x : Parts} {g : Graph} {t : Target}

theorem reaches_of_mem (hx : x.Of g t) {i : Nat} (hi : i ∈ x.plan.order) {o : CompositionObject}
    (ho : x.plan.graph.objects[i]? = some o) : x.plan.graph.Reaches o := by
  refine ⟨i, ?_, ho⟩
  rw [hx.planned.graph]
  exact hx.planned.mem_order.1 hi

theorem sourced_types (hx : x.Of g t) (hbindings : g.bindings.Built) :
    ∀ type ∈ x.unit.types, x.plan.Sourced type := by
  have hbuilt : x.plan.graph.bindings.Built := hx.planned.graph ▸ hbindings
  have hshared : ∀ f ∈ x.sharedFields, ∀ type ∈ f.types, x.plan.Sourced type := by
    intro f hf
    obtain ⟨i, hi, hfield⟩ := exists_of_mem_right hx.sharedFields hf
    obtain ⟨o, name, ho, -, rfl⟩ := Plan.sharedField_eq_ok hfield
    have hreach := reaches_of_mem hx (List.mem_filter.1 hi).1 ho
    simpa [Field.types] using (Plan.uses_objectType o).sourced hreach
  have hfactories : ∀ m ∈ x.factories, ∀ type ∈ m.types, x.plan.Sourced type := by
    intro m hm
    obtain ⟨i, hi, hfactory⟩ := exists_of_mem_right hx.factories hm
    obtain ⟨o, body, ho, hbody, htypes⟩ := Plan.types_factory hfactory
    have hreach := reaches_of_mem hx hi ho
    rw [htypes]
    refine List.forall_mem_cons.2 ⟨(Plan.uses_objectType o).sourced hreach, fun type htype => ?_⟩
    obtain ⟨s, hs, htype⟩ := List.mem_flatMap.1 htype
    exact (Plan.uses_objectStatements ho hbody s hs type htype).sourced hreach
  intro type htype
  simp only [ClassUnit.types, unit, List.mem_append, List.mem_flatMap, List.mem_cons] at htype
  rcases htype with (⟨f, hf | hf, htype⟩ | ⟨m, rfl | (hm | hm) | hm, htype⟩) | ⟨a, ha, htype⟩
  · exact Plan.sourced_classFields hbuilt _ f hf type htype
  · exact hshared f hf type htype
  · exact Plan.sourced_constructorMethod _ type htype
  · exact Plan.sourced_getterMethods _ m hm type htype
  · exact Plan.sourced_themeMethodList _ m hm type htype
  · exact hfactories m hm type htype
  · exact Plan.sourced_accessorList _ a ha type htype

theorem types_of_method {m : Method} (hm : m ∈ x.unit.methods) {type : TypeRef}
    (htype : type ∈ m.types) : type ∈ x.unit.types := by
  rw [ClassUnit.types, List.append_assoc, List.mem_append, List.mem_append, List.mem_flatMap,
    List.mem_flatMap]
  exact .inr (.inl ⟨m, hm, htype⟩)

theorem mem_types_of_shown (hx : x.Of g t) {b : Binding} (hb : b ∈ x.plan.graph.bindings.values) :
    Plan.exposedType b.exposed ∈ x.unit.types := by
  have haccessor : Plan.bindingAccessor b ∈ x.unit.accessors := by
    have htheme := usesTheme_of_binding hx hb
    simp only [unit, Plan.accessorList, htheme, if_true]
    exact List.mem_map_of_mem hb
  exact List.mem_append_right _ (List.mem_flatMap.2 ⟨_, haccessor, List.mem_cons_self ..⟩)

theorem mem_types_of_own (hx : x.Of g t) {o : CompositionObject} (ho : x.plan.graph.Reaches o)
    {type : TypeRef} (hown : x.plan.Own o type) : type ∈ x.unit.types := by
  obtain ⟨i, hi, ho⟩ := ho
  rw [hx.planned.graph] at hi
  obtain ⟨m, hm, hfactory⟩ := exists_of_mem_left hx.factories (hx.planned.mem_order.2 hi)
  obtain ⟨o', body, ho', hbody, htypes⟩ := Plan.types_factory hfactory
  cases ho.symm.trans ho'
  refine types_of_method (m := m) (by simp [unit, hm]) ?_
  rw [htypes]
  exact Plan.mem_of_own ho hbody hown

end Parts

@[mk_iff]
inductive Graph.Needs (g : Graph) (t : Target) (writer : Language) : String → Prop where
  | composition : Needs g t writer t.compositionSpace
  | time : Needs g t writer writer.timeSpace
  | numerics : Needs g t writer writer.numericsSpace
  | brush {c : Color} {animators : List Animator} (h : g.Reaches (.colorBrush c animators)) :
      Needs g t writer "Windows.UI"
  | shown {b : Binding} (hb : b ∈ g.bindings.values) (h : b.exposed = .color) :
      Needs g t writer "Windows.UI"
  | media {assetId uri : String} (h : g.Reaches (.imageSurface assetId uri)) :
      Needs g t writer t.mediaSpace
  | effects {effect : Effect} {sources : List BoundSource}
      (h : g.Reaches (.effectBrush effect sources)) : Needs g t writer Plan.effectsSpace
  | canvas {mode : CompositeMode} {names : List String} {sources : List BoundSource}
      (h : g.Reaches (.effectBrush (.composite mode names) sources)) :
      Needs g t writer Plan.canvasSpace

namespace Plan

variable {p : Plan} {writer : Language} {type : TypeRef} {space : String}

theorem Sourced.needs (h : p.Sourced type) (hspace : writer.namespaceOf? type = some space) :
    p.graph.Needs p.target writer space := by
  have hbuiltIn : ∀ {b : BuiltIn}, b ≠ .color → writer.builtInNamespace? b = some space →
      p.graph.Needs p.target writer space := by
    intro b hb hspace
    rcases writer.builtInNamespace?_of_ne_color hb hspace with rfl | rfl
    · exact .time
    · exact .numerics
  cases h with
  | common h =>
      cases h with
      | composition name =>
          cases hspace
          exact .composition
      | builtIn hb => exact hbuiltIn hb hspace
  | @shown b hb =>
      by_cases hexposed : b.exposed = .color
      · rw [hexposed] at hspace
        cases hspace
        exact .shown hb hexposed
      · obtain ⟨other, hother, htype⟩ := exposedType_of_ne_color hexposed
        rw [htype] at hspace
        exact hbuiltIn hother hspace
  | object ho hown =>
      cases hown with
      | color c animators =>
          cases hspace
          exact .brush ho
      | surface assetId uri =>
          cases hspace
          exact .media ho
      | effect effect sources =>
          cases hspace
          exact .effects ho
      | mode mode names sources =>
          cases hspace
          exact .canvas ho

end Plan

namespace Parts

variable {x : Parts} {g : Graph} {t : Target}

theorem mem_namespaces_of_needs (hx : x.Of g t) {writer : Language} {space : String}
    (h : x.plan.graph.Needs x.plan.target writer space) : space ∈ x.unit.namespaces writer := by
  have hgetters : ∀ type ∈ (x.plan.getterMethods x.ticks).map (·.returns), type ∈ x.unit.types :=
    List.forall_mem_map.2 fun m hm => types_of_method (by simp [unit, hm]) (List.mem_cons_self ..)
  have hreturns : (x.plan.getterMethods x.ticks).map (·.returns)
      = [x.plan.compositionType "Visual", .builtIn .timeSpan, .builtIn .vector2] := rfl
  rw [hreturns] at hgetters
  rw [ClassUnit.mem_namespaces]
  cases h with
  | composition => exact ⟨x.plan.compositionType "Visual", hgetters _ (by simp), rfl⟩
  | time =>
      refine ⟨.builtIn .timeSpan, hgetters _ (by simp), ?_⟩
      cases writer <;> rfl
  | numerics =>
      refine ⟨.builtIn .vector2, hgetters _ (by simp), ?_⟩
      cases writer <;> rfl
  | brush ho => exact ⟨_, mem_types_of_own hx ho (.color _ _), rfl⟩
  | shown hb hexposed => exact ⟨_, hexposed ▸ mem_types_of_shown hx hb, rfl⟩
  | media ho => exact ⟨_, mem_types_of_own hx ho (.surface _ _), rfl⟩
  | effects ho => exact ⟨_, mem_types_of_own hx ho (.effect _ _), rfl⟩
  | canvas ho => exact ⟨_, mem_types_of_own hx ho (.mode _ _ _), rfl⟩

theorem mem_namespaces (hx : x.Of g t) (hbindings : g.bindings.Built) {writer : Language}
    {space : String} : space ∈ x.unit.namespaces writer ↔ g.Needs t writer space := by
  rw [← hx.planned.graph, ← hx.planned.target]
  refine ⟨fun h => ?_, mem_namespaces_of_needs hx⟩
  obtain ⟨type, htype, hspace⟩ := ClassUnit.mem_namespaces.1 h
  exact (sourced_types hx hbindings type htype).needs hspace

end Parts

structure ImportsExactly (g : Graph) (t : Target) (writer : Language) (u : ClassUnit) : Prop where
  rising : (u.namespaces writer).Pairwise (· < ·)
  used_iff : ∀ space, space ∈ u.namespaces writer
    ↔ ∃ type, u.Mentions type ∧ writer.namespaceOf? type = some space
  always : [t.compositionSpace, writer.timeSpace, writer.numericsSpace] ⊆ u.namespaces writer
  color_iff : "Windows.UI" ∈ u.namespaces writer
    ↔ (∃ c animators, g.Reaches (.colorBrush c animators))
      ∨ ∃ b ∈ g.bindings.values, b.exposed = .color
  media_iff : t.mediaSpace ∈ u.namespaces writer
    ↔ ∃ assetId uri, g.Reaches (.imageSurface assetId uri)
  effects_iff : "Microsoft.Graphics.Canvas.Effects" ∈ u.namespaces writer
    ↔ ∃ effect sources, g.Reaches (.effectBrush effect sources)
  canvas_iff : "Microsoft.Graphics.Canvas" ∈ u.namespaces writer
    ↔ ∃ mode names sources, g.Reaches (.effectBrush (.composite mode names) sources)
  no_other : u.namespaces writer ⊆ t.spaces writer

theorem lower_importsExactly {g : Graph} {t : Target} {u : ClassUnit} (hu : g.lower t = .ok u)
    {bs : List Binding} (hbs : Bindings.ofList bs = .ok g.bindings) (writer : Language) :
    ImportsExactly g t writer u := by
  obtain ⟨x, hx, rfl⟩ := Graph.lower_parts hu
  have hneeds : ∀ {space}, space ∈ x.unit.namespaces writer ↔ g.Needs t writer space :=
    Parts.mem_namespaces hx (Bindings.built_of_ofList hbs)
  have hspaces := t.spaces_nodup writer
  simp only [Target.spaces, List.nodup_cons, List.mem_cons, List.not_mem_nil, not_or] at hspaces
  refine ⟨Catalog.sortedTexts_pairwise _, fun space => ?_, ?_, ?color, ?media, ?effects, ?canvas, ?_⟩
  · simp only [ClassUnit.mem_namespaces, ClassUnit.mem_types]
  · simp [hneeds, Graph.Needs.composition, Graph.Needs.time, Graph.Needs.numerics]
  case color | media | effects | canvas =>
    rw [hneeds, Graph.needs_iff]
    grind [Plan.effectsSpace, Plan.canvasSpace]
  · intro space hspace
    cases hneeds.1 hspace <;> simp [Target.spaces, Plan.effectsSpace, Plan.canvasSpace]

def hueBinding : Binding :=
  ⟨"Hue", "Hue", .vector4, .color, .color ⟨1, 0, 0, 1⟩⟩

def blurredScene : Graph where
  objects := [.spriteVisual {} (some 1) [],
    .effectBrush (.gaussianBlur none (some "image")) [⟨"image", 2⟩], .surfaceBrush 3,
    .imageSurface "image_0" "ms-appx:///cat.png",
    .effectBrush (.composite .sourceOver ["paint"]) [⟨"paint", 5⟩], .colorBrush ⟨1, 0, 0, 1⟩ []]
  root := some 0
  bindings := ⟨[("Hue", hueBinding)]⟩

def blurredTarget : Target where
  language := .cppWinRT
  size := ⟨1, 1⟩
  nanoseconds := 100

def blurredPlan : Plan :=
  ⟨blurredTarget, blurredScene, [0, 1, 2, 3],
    [(0, "SpriteVisual_0"), (1, "CompositionEffectBrush_0"), (2, "CompositionSurfaceBrush_0"),
      (3, "LoadedImageSurface_0")], []⟩

theorem ofGraph_blurredScene : Plan.ofGraph blurredTarget blurredScene = .ok blurredPlan := by
  have hvalid : blurredScene.validate = .ok () := Graph.validate_of_checks rfl rfl (by cbv)
  exact Plan.ofGraph_eq hvalid (by cbv) (by decide) rfl

theorem lower_blurredScene : ∃ u, blurredScene.lower blurredTarget = .ok u := by
  have hcheck : blurredPlan.checkBindings = .ok () := by decide +kernel
  exact Graph.lower_ok ofGraph_blurredScene hcheck ⟨1, rfl⟩

theorem reachable_blurredScene {i : Nat} : blurredScene.Reachable i ↔ i < 4 := by
  have horder : blurredPlan.order = List.range 4 := rfl
  rw [← (Plan.ofGraph_planned ofGraph_blurredScene).mem_order, horder, List.mem_range]

theorem lower_importsExactly_blurredScene :
    ∃ u, blurredScene.lower blurredTarget = .ok u
      ∧ Bindings.ofList [hueBinding] = .ok blurredScene.bindings
      ∧ ImportsExactly blurredScene blurredTarget .cppWinRT u
      ∧ ["Microsoft.Graphics.Canvas.Effects", "Windows.Foundation", "Windows.Foundation.Numerics",
          "Windows.UI", "Windows.UI.Composition", "Windows.UI.Xaml.Media"]
        ⊆ u.namespaces .cppWinRT
      ∧ "Microsoft.Graphics.Canvas" ∉ u.namespaces .cppWinRT := by
  obtain ⟨u, hu⟩ := lower_blurredScene
  have hbs : Bindings.ofList [hueBinding] = .ok blurredScene.bindings :=
    Bindings.ofList_singleton (by decide +kernel) rfl rfl
  have himports := lower_importsExactly hu hbs .cppWinRT
  have hcolor := himports.color_iff.2 (.inr ⟨hueBinding, List.mem_singleton_self _, rfl⟩)
  have hmedia := himports.media_iff.2 ⟨_, _, 3, reachable_blurredScene.2 (by decide), rfl⟩
  have heffects := himports.effects_iff.2 ⟨_, _, 1, reachable_blurredScene.2 (by decide), rfl⟩
  refine ⟨u, hu, hbs, himports, ?_, ?_⟩
  · have halways := himports.always
    simp only [List.cons_subset] at halways ⊢
    exact ⟨heffects, halways.2.1, halways.2.2.1, hcolor, halways.1, hmedia, List.nil_subset _⟩
  · rw [himports.canvas_iff]
    rintro ⟨mode, names, sources, i, hi, ho⟩
    have hbound := reachable_blurredScene.1 hi
    interval_cases i <;> cases ho

end Scenograph
