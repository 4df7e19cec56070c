import Mathlib.Data.List.Basic
import Scenograph.Proofs.Lowering.Bodies
import Scenograph.Proofs.Source.Spelling

namespace Scenograph

theorem Expr.allPlainNames_iff {es : List Expr} :
    Expr.AllPlainNames es ↔ ∀ e ∈ es, e.PlainNames := by
  induction es with
  | nil => simp [Expr.AllPlainNames]
  | cons e es ih => simp [Expr.AllPlainNames, ih]

theorem Node.allPlainNames_iff {nodes : List Node} :
    Node.AllPlainNames nodes ↔ ∀ n ∈ nodes, n.PlainNames := by
  induction nodes with
  | nil => simp [Node.AllPlainNames]
  | cons n nodes ih => simp [Node.AllPlainNames, ih]

namespace Plan

theorem plainText_factoryName (kind : ObjectKind) (n : Nat) : PlainText (factoryName kind n) := by
  have hkind : PlainText kind.name := by cases kind <;> decide
  exact (hkind.append (by decide)).append (plainChars_digits n).ofList

theorem plainText_cacheField (kind : ObjectKind) (n : Nat) :
    PlainText (cacheField (factoryName kind n)) := by
  have hstem : PlainText (fieldStem kind) := by cases kind <;> decide +kernel
  rw [PlainText, toList_cacheField]
  exact .cons (by decide) (PlainChars.append hstem (.cons (by decide) (plainChars_digits n)))

theorem plainText_backingField {b : Binding} (h : PlainText b.name) : PlainText (backingField b) :=
  PlainText.append (by decide) h

theorem plainNames_compositionType (p : Plan) {name : String} (h : PlainText name) :
    (p.compositionType name).PlainNames := by
  refine ⟨?_, h⟩
  unfold Target.compositionSpace
  split <;> decide

theorem plainNames_objectType (p : Plan) (kind : ObjectKind) : (p.objectType kind).PlainNames := by
  have hmedia : PlainText p.target.mediaSpace := by
    unfold Target.mediaSpace
    split <;> decide
  cases kind with
  | imageSurface => exact ⟨hmedia, by decide⟩
  | _ => exact p.plainNames_compositionType (by decide)

theorem plainNames_result : result.PlainNames :=
  (by decide : PlainText "result")

theorem plainNames_create {method : String} {args : List Expr} (hmethod : PlainText method)
    (hargs : ∀ e ∈ args, e.PlainNames) : (create method args).PlainNames :=
  ⟨(by decide : PlainText "_c"), hmethod, Expr.allPlainNames_iff.2 hargs⟩

theorem plainText_localNames : ∀ name ∈ localNames, PlainText name := by
  decide +kernel

theorem plainText_effectKind (kind : EffectKind) : PlainText kind.name := by
  cases kind <;> decide

section Bodies

variable {g : Graph} {t : Target} {p : Plan}

theorem plainNames_effectType (kind : EffectKind) :
    (TypeRef.imported effectsSpace kind.name).PlainNames :=
  ⟨by decide, plainText_effectKind kind⟩

theorem plainNames_sourceParameter (p : Plan) (name : String) :
    (p.sourceParameter name).PlainNames :=
  ⟨p.plainNames_compositionType (by decide), trivial, trivial⟩

theorem LocalType.plainNames {type : TypeRef} (h : p.LocalType type) : type.PlainNames := by
  cases h with
  | object kind => exact p.plainNames_objectType kind
  | children | effectFactory => exact p.plainNames_compositionType (by decide)
  | effect kind => exact plainNames_effectType kind

theorem Operand.plainNames (hp : Planned t g p) {e : Expr} (h : p.Operand e) : e.PlainNames := by
  induction h with
  | lit value => trivial
  | held hname => exact plainText_localNames _ hname
  | factory hname =>
      obtain ⟨kind, n, rfl⟩ := hp.exists_name_eq hname
      exact ⟨plainText_factoryName kind n, trivial⟩
  | theme => exact ⟨by decide, trivial⟩
  | create hmethod _ ih =>
      have hplain : ∀ name ∈ creators, PlainText name := by decide +kernel
      exact plainNames_create (hplain _ hmethod) ih
  | load kind uri => exact ⟨p.plainNames_objectType kind, by decide, ⟨trivial, trivial, trivial⟩, trivial⟩
  | children => exact ⟨plainNames_result, by decide⟩
  | effect kind => exact ⟨plainNames_effectType kind, trivial⟩
  | mode mode =>
      refine ⟨⟨by decide, by decide⟩, ?_⟩
      cases mode <;> decide
  | source name => exact p.plainNames_sourceParameter name
  | brush => exact ⟨(by decide : PlainText "effectFactory"), by decide, trivial⟩

theorem SetsUp.plainNames (hp : Planned t g p) {s : Statement} (h : p.SetsUp s) : s.PlainNames := by
  have hproperties : ∀ name ∈ propertyNames, PlainText name := by decide +kernel
  have hcalls : ∀ name ∈ callNames, PlainText name := by decide +kernel
  have hadd : PlainText p.target.language.listAdd := by
    cases p.target.language <;> decide
  cases h with
  | declare htype hname hvalue =>
      exact ⟨htype.plainNames, plainText_localNames _ hname, hvalue.plainNames hp⟩
  | setProperty hreceiver hname hvalue =>
      exact ⟨plainText_localNames _ hreceiver, hproperties _ hname, hvalue.plainNames hp⟩
  | call hreceiver hmethod hargs =>
      exact ⟨plainText_localNames _ hreceiver, hcalls _ hmethod,
        Expr.allPlainNames_iff.2 fun e he => (hargs e he).plainNames hp⟩
  | append hholder source =>
      exact ⟨⟨plainText_localNames _ hholder, by decide⟩, hadd, p.plainNames_sourceParameter source,
        trivial⟩

end Bodies

theorem plainNames_ordinary {name : String} {returns : TypeRef} {nodes : List Node}
    (hname : PlainText name) (hreturns : returns.PlainNames) (hnodes : Node.AllPlainNames nodes) :
    (ordinary name returns nodes).PlainNames :=
  ⟨hname, by simp [ordinary], hreturns, by simp [ordinary], hnodes⟩

theorem plainNames_keptNode {field : String} (h : PlainText field) :
    (keptNode field).PlainNames := by
  refine ⟨?_, h, trivial⟩
  rintro e ⟨⟩
  exact h

theorem plainNames_insertValue {b : Binding} {value : Expr} (h : value.PlainNames) :
    (insertValue b value).PlainNames := by
  have hinsert : PlainText b.stored.insertMethod := by
    cases b.stored <;> decide
  refine ⟨(by decide : PlainText "_themeProperties"), hinsert, trivial, ?_, trivial⟩
  unfold storedValue
  split
  · exact ⟨by decide, h, trivial⟩
  · exact h

theorem plainNames_ensureThemeMethod {p : Plan}
    (h : ∀ b ∈ p.graph.bindings.values, PlainText b.name) : p.ensureThemeMethod.PlainNames := by
  refine plainNames_ordinary (by decide) (p.plainNames_compositionType (by decide))
    (Node.allPlainNames_iff.2 (List.forall_mem_append.2 ⟨List.forall_mem_append.2 ⟨?_, ?_⟩, ?_⟩))
  · have hmake : (create "CreatePropertySet" []).PlainNames :=
      plainNames_create (by decide) (by simp)
    refine List.forall_mem_cons.2 ⟨plainNames_keptNode (by decide), List.forall_mem_singleton.2 ?_⟩
    exact ⟨(by decide : PlainText "_themeProperties"), hmake⟩
  · intro n hn
    obtain ⟨s, hs, rfl⟩ := List.mem_map.1 hn
    obtain ⟨b, hb, rfl⟩ := List.mem_map.1 hs
    exact plainNames_insertValue (plainText_backingField (h b hb))
  · exact List.forall_mem_singleton.2 (by decide : PlainText "_themeProperties")

theorem plainNames_colorMethod : colorMethod.PlainNames := by
  have hcolor : PlainText "color" := by decide
  refine ⟨by decide, List.forall_mem_singleton.2 ⟨hcolor, trivial⟩, trivial, by simp [colorMethod,
    ordinary], ?_, trivial⟩
  exact ⟨trivial, ⟨hcolor, by decide⟩, ⟨hcolor, by decide⟩, ⟨hcolor, by decide⟩,
    ⟨hcolor, by decide⟩, trivial⟩

theorem plainNames_bindingAccessor {b : Binding} (h : PlainText b.name) :
    (bindingAccessor b).PlainNames := by
  have hfield := plainText_backingField h
  have hvalue : (Expr.var "value").PlainNames := (by decide : PlainText "value")
  have htype : (exposedType b.exposed).PlainNames := by
    cases b.exposed <;> exact trivial
  have hguard : ∀ e ∈ some (Expr.notNull themeSet), e.PlainNames := by
    rintro e ⟨⟩
    exact (by decide : PlainText "_themeProperties")
  exact ⟨h, htype, hfield, by simp [bindingAccessor], ⟨hfield, hvalue⟩,
    ⟨hguard, plainNames_insertValue hvalue, trivial⟩, trivial⟩

theorem plainNames_classField {p : Plan} (h : ∀ b ∈ p.graph.bindings.values, PlainText b.name)
    (usesTheme : Bool) : ∀ f ∈ p.classFields usesTheme, f.PlainNames := by
  have hcore : ∀ {name : String}, PlainText name → ∀ {type : String}, PlainText type →
      (⟨name, p.compositionType type, none⟩ : Field).PlainNames :=
    fun hname _ htype => ⟨hname, p.plainNames_compositionType htype, by simp⟩
  refine List.forall_mem_append.2 ⟨List.forall_mem_cons.2 ⟨hcore (by decide) (by decide),
    List.forall_mem_singleton.2 (hcore (by decide) (by decide))⟩, ?_⟩
  split
  · refine List.forall_mem_cons.2 ⟨hcore (by decide) (by decide),
      List.forall_mem_map.2 fun b hb => ⟨plainText_backingField (h b hb), ?_, ?_⟩⟩
    · cases b.exposed <;> exact trivial
    · rintro e ⟨⟩
      exact trivial
  · simp

end Plan

section Members

variable {x : Parts} {g : Graph} {t : Target} (hx : x.Of g t)

include hx

theorem plainText_nameOf {i : Nat} {name : String} (h : x.plan.nameOf i = .ok name) :
    PlainText name ∧ PlainText (Plan.cacheField name) := by
  obtain ⟨kind, n, rfl⟩ := hx.planned.exists_name_eq h
  exact ⟨Plan.plainText_factoryName kind n, Plan.plainText_cacheField kind n⟩

theorem plainNames_factory {m : Method} (hm : m ∈ x.factories) : m.PlainNames := by
  obtain ⟨i, hi, hfactory⟩ := exists_of_mem_right hx.factories hm
  obtain ⟨o, name, body, ho, hname, hbody, rfl⟩ := Plan.factory_eq_ok hfactory
  obtain ⟨hplain, hfield⟩ := plainText_nameOf hx hname
  have hstatements : ∀ s ∈ body, s.PlainNames :=
    fun s hs => (Plan.setsUp_objectStatements hbody s hs).plainNames hx.planned
  refine Plan.plainNames_ordinary hplain (x.plan.plainNames_objectType o.kind)
    (Node.allPlainNames_iff.2 (List.forall_mem_append.2 ⟨List.forall_mem_append.2
      ⟨List.forall_mem_append.2 ⟨?_, List.forall_mem_map.2 hstatements⟩, ?_⟩,
      List.forall_mem_singleton.2 Plan.plainNames_result⟩))
  · split
    · exact List.forall_mem_singleton.2 (Plan.plainNames_keptNode hfield)
    · simp
  · split
    · exact List.forall_mem_singleton.2 ⟨hfield, Plan.plainNames_result⟩
    · simp

theorem plainNames_constructor (hclass : PlainText t.className) :
    (x.plan.constructorMethod x.rootFactory).PlainNames := by
  have hcompositor : PlainText "compositor" := by decide
  have hname : PlainText x.plan.target.className := by rwa [hx.planned.target]
  refine ⟨hname, List.forall_mem_singleton.2
    ⟨hcompositor, x.plan.plainNames_compositionType (by decide)⟩, trivial,
    by simp [Plan.constructorMethod], ?_, ?_, trivial⟩
  · exact ⟨(by decide : PlainText "_c"), hcompositor⟩
  · exact ⟨(by decide : PlainText "_root"), (plainText_nameOf hx hx.rootFactory).1, trivial⟩

omit hx in
theorem plainNames_getter {m : Method} (hm : m ∈ x.plan.getterMethods x.ticks) : m.PlainNames := by
  have hgetter : ∀ {name type value} (comment : String), PlainText name → type.PlainNames →
      value.PlainNames → (Plan.getterMethod name type value comment).PlainNames := by
    intro name type value comment hname htype hvalue
    have h : (Plan.ordinary name type [.stmt (.ret (some value))]).PlainNames :=
      Plan.plainNames_ordinary hname htype ⟨hvalue, trivial⟩
    exact ⟨h.name, h.parameters, h.returns, h.body⟩
  simp only [Plan.getterMethods, List.mem_cons, List.not_mem_nil, or_false] at hm
  rcases hm with rfl | rfl | rfl
  · exact hgetter _ (by decide) (x.plan.plainNames_compositionType (by decide))
      (by decide : PlainText "_root")
  · exact hgetter _ (by decide) trivial trivial
  · exact hgetter _ (by decide) trivial trivial

theorem plainNames_unit (hclass : PlainText t.className)
    (hbindings : ∀ b ∈ g.bindings.values, PlainText b.name) : x.unit.PlainNames := by
  rw [← hx.planned.graph] at hbindings
  refine ⟨?_, ?_, ?_⟩
  · refine List.forall_mem_append.2
      ⟨Plan.plainNames_classField hbindings x.usesTheme, fun f hf => ?_⟩
    obtain ⟨i, _, hfield⟩ := exists_of_mem_right hx.sharedFields hf
    obtain ⟨o, name, _, hname, rfl⟩ := Plan.sharedField_eq_ok hfield
    exact ⟨(plainText_nameOf hx hname).2, x.plan.plainNames_objectType o.kind, by simp⟩
  · refine List.forall_mem_cons.2 ⟨plainNames_constructor hx hclass, List.forall_mem_append.2
      ⟨List.forall_mem_append.2 ⟨fun m => plainNames_getter, ?_⟩, fun m => plainNames_factory hx⟩⟩
    unfold Plan.themeMethodList
    split
    · refine List.forall_mem_cons.2 ⟨Plan.plainNames_ensureThemeMethod hbindings, ?_⟩
      split
      · exact List.forall_mem_singleton.2 Plan.plainNames_colorMethod
      · simp
    · simp
  · unfold Parts.unit Plan.accessorList
    dsimp only
    split
    · exact List.forall_mem_map.2 fun b hb => Plan.plainNames_bindingAccessor (hbindings b hb)
    · simp

end Members

end Scenograph
