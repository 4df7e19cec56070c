import Scenograph.Proofs.Execution.Construction
import Scenograph.Proofs.Lowering.Members
import Scenograph.Proofs.Lowering.Totality

namespace Scenograph

namespace ClassUnit

def Answers (u : ClassUnit) (name : String) (count : Nat) : Prop :=
  (u.methods.filter fun m => !m.isConstructor && m.name == name).map (·.parameters.length) = [count]

end ClassUnit

mutual

def Expr.Closed (u : ClassUnit) (scope : List String) : Expr → Prop
  | .var name => name ∈ scope
  | .lit _ | .enumMember _ _ => True
  | .call receiver _ args => Expr.Closed u scope receiver ∧ Expr.AllClosed u scope args
  | .selfCall method args => u.Answers method args.length ∧ Expr.AllClosed u scope args
  | .staticCall _ _ args | .construct _ args => Expr.AllClosed u scope args
  | .property receiver _ | .field receiver _ => Expr.Closed u scope receiver
  | .notNull inner => Expr.Closed u scope inner

def Expr.AllClosed (u : ClassUnit) (scope : List String) : List Expr → Prop
  | [] => True
  | e :: rest => Expr.Closed u scope e ∧ Expr.AllClosed u scope rest

end

namespace Statement

def target? : Statement → Option String
  | .assign target _ => some target
  | _ => none

def declared : Statement → List String
  | .declare _ name _ => [name]
  | _ => []

def Closed (u : ClassUnit) (scope : List String) (s : Statement) : Prop :=
  (∀ e ∈ s.expressions, e.Closed u scope) ∧ ∀ target ∈ s.target?, target ∈ scope

end Statement

def Node.declared : Node → List String
  | .stmt s => s.declared
  | .block _ _ => []

mutual

def Node.Closed (u : ClassUnit) (scope : List String) : Node → Prop
  | .stmt s => s.Closed u scope
  | .block guard nodes => (∀ e ∈ guard, e.Closed u scope) ∧ Node.AllClosed u scope nodes

/-- A declaration is in force for what follows it in its block, and no longer. -/
def Node.AllClosed (u : ClassUnit) (scope : List String) : List Node → Prop
  | [] => True
  | n :: rest => Node.Closed u scope n ∧ Node.AllClosed u (n.declared ++ scope) rest

end

namespace Tree

def Closed (u : ClassUnit) (scope : List String) (t : Tree) : Prop :=
  (∀ e ∈ t.guard, e.Closed u scope) ∧ Node.AllClosed u scope t.nodes

def locals (t : Tree) : List String :=
  t.statements.flatMap Statement.declared

end Tree

def Method.parameterNames (m : Method) : List String :=
  m.parameters.map (·.name)

structure Method.WellScoped (u : ClassUnit) (m : Method) : Prop where
  closed : m.body.Closed u (m.parameterNames ++ u.fieldNames)
  locals : (m.parameterNames ++ m.body.locals).Nodup
  static : m.isStatic = true → m.body.Closed u m.parameterNames
    ∧ ∀ name ∈ m.parameterNames ++ m.body.locals, name ∉ u.fieldNames
  returns : m.isConstructor = false →
    ∃ before value, m.body.nodes = before ++ [.stmt (.ret (some value))]

structure ClassUnit.WellScoped (u : ClassUnit) : Prop where
  fields : ∀ f ∈ u.fields, ∀ e ∈ f.init, e.Closed u u.fieldNames
  methods : ∀ m ∈ u.methods, m.WellScoped u
  getters : ∀ a ∈ u.accessors, a.field ∈ u.fieldNames
  setters : ∀ a ∈ u.accessors, a.setter.Closed u ("value" :: u.fieldNames)

section Rules

variable {u : ClassUnit} {scope : List String} {rest : List Node}

theorem Expr.allClosed_iff {es : List Expr} :
    Expr.AllClosed u scope es ↔ ∀ e ∈ es, e.Closed u scope := by
  induction es with
  | nil => simp [Expr.AllClosed]
  | cons e es ih => simp [Expr.AllClosed, ih]

structure Statement.Fits (u : ClassUnit) (scope : List String) (s : Statement) : Prop where
  closed : s.Closed u scope
  declared : s.declared = []

theorem Statement.fits_eval {e : Expr} (h : e.Closed u scope) : (Statement.eval e).Fits u scope :=
  ⟨by simpa [Closed, expressions, target?] using h, rfl⟩

theorem Statement.fits_setProperty {receiver value : Expr} {name : String}
    (hreceiver : receiver.Closed u scope) (hvalue : value.Closed u scope) :
    (Statement.setProperty receiver name value).Fits u scope :=
  ⟨by simpa [Closed, expressions, target?] using ⟨hreceiver, hvalue⟩, rfl⟩

theorem Statement.fits_assign {target : String} {value : Expr} (htarget : target ∈ scope)
    (hvalue : value.Closed u scope) : (Statement.assign target value).Fits u scope :=
  ⟨by simpa [Closed, expressions, target?] using ⟨hvalue, htarget⟩, rfl⟩

theorem Statement.fits_ret {value : Expr} (hvalue : value.Closed u scope) :
    (Statement.ret (some value)).Fits u scope :=
  ⟨by simpa [Closed, expressions, target?] using hvalue, rfl⟩

theorem Node.allClosed_fits {ss : List Statement} (h : ∀ s ∈ ss, s.Fits u scope)
    (hrest : Node.AllClosed u scope rest) : Node.AllClosed u scope (ss.map .stmt ++ rest) := by
  induction ss with
  | nil => exact hrest
  | cons s ss ih =>
      have hs := h s (List.mem_cons_self ..)
      refine ⟨hs.closed, ?_⟩
      rw [Node.declared, hs.declared]
      exact ih fun s' hs' => h s' (List.mem_cons_of_mem _ hs')

theorem Node.allClosed_declare {type : TypeRef} {name : String} {value : Expr}
    (hvalue : value.Closed u scope) (hrest : Node.AllClosed u (name :: scope) rest) :
    Node.AllClosed u scope (.stmt (.declare type name value) :: rest) :=
  ⟨by simpa [Node.Closed, Statement.Closed, Statement.expressions, Statement.target?] using hvalue,
    hrest⟩

theorem Node.allClosed_return {value : Expr} (hvalue : value.Closed u scope) :
    Node.AllClosed u scope [.stmt (.ret (some value))] :=
  ⟨(Statement.fits_ret hvalue).closed, trivial⟩

theorem Node.allClosed_kept {field : String} (hfield : field ∈ scope)
    (hrest : Node.AllClosed u scope rest) :
    Node.AllClosed u scope (Plan.keptNode field :: rest) :=
  ⟨⟨by simpa [Expr.Closed] using hfield, Node.allClosed_return hfield⟩, hrest⟩

end Rules

section Answered

theorem filter_eq_singleton {α : Type} (key : α → String) {l : List α} (hl : (l.map key).Nodup) {a : α}
    (ha : a ∈ l) : l.filter (key · == key a) = [a] := by
  induction l with
  | nil => cases ha
  | cons b l ih =>
      obtain ⟨hnew, hl⟩ := List.nodup_cons.1 hl
      rcases List.mem_cons.1 ha with rfl | ha
      · have hnone : l.filter (key · == key a) = [] := by
          refine List.filter_eq_nil_iff.2 fun c hc heq => hnew ?_
          exact List.mem_map.2 ⟨c, hc, by simpa using heq⟩
        rw [List.filter_cons_of_pos (by simp), hnone]
      · have hne : key b ≠ key a := fun heq => hnew (heq ▸ List.mem_map_of_mem ha)
        rw [List.filter_cons_of_neg (by simpa using hne), ih hl ha]

variable {x : Parts} {g : Graph} {t : Target} (hx : x.Of g t)

include hx

theorem Parts.answers_of_mem {m : Method} (hm : m ∈ x.unit.methods)
    (hordinary : m.isConstructor = false) : x.unit.Answers m.name m.parameters.length := by
  have hmem : m ∈ x.unit.methods.filter (!·.isConstructor) :=
    List.mem_filter.2 ⟨hm, by simp [hordinary]⟩
  have hone := filter_eq_singleton Method.name (Parts.methodNames_nodup hx) hmem
  rw [List.filter_filter] at hone
  simp only [ClassUnit.Answers, Bool.and_comm (!Method.isConstructor _), hone, List.map_cons,
    List.map_nil]

theorem Parts.answers_factory {i : Nat} {name : String} (hname : x.plan.nameOf i = .ok name) :
    x.unit.Answers name 0 := by
  obtain ⟨m, hm, hfactory⟩ :=
    exists_of_mem_left hx.factories (hx.planned.mem_order_of_nameOf hname)
  obtain ⟨o, other, body, _, hother, _, rfl⟩ := Plan.factory_eq_ok hfactory
  cases hname.symm.trans hother
  exact Parts.answers_of_mem hx (List.mem_cons_of_mem _ (List.mem_append_right _ hm)) rfl

theorem Parts.answers_ensureTheme (htheme : x.usesTheme = true) :
    x.unit.Answers "EnsureThemeProperties" 0 := by
  refine Parts.answers_of_mem hx (m := x.plan.ensureThemeMethod) ?_ rfl
  simp [Parts.unit, Plan.themeMethodList, htheme]

theorem Parts.answers_color {b : Binding} (hb : b ∈ x.plan.graph.bindings.values)
    (hconverts : Plan.convertsColor b = true) : x.unit.Answers "ColorAsVector4" 1 := by
  have hany : x.plan.graph.bindings.values.any Plan.convertsColor = true :=
    List.any_eq_true.2 ⟨b, hb, hconverts⟩
  refine Parts.answers_of_mem hx (m := Plan.colorMethod) ?_ rfl
  simp [Parts.unit, Plan.themeMethodList, Parts.usesTheme_of_binding hx hb, hany]

end Answered

structure Introduces (u : ClassUnit) (scope : List String) (body : List Statement) : Prop where
  closed : ∀ rest, (∀ scope', scope ⊆ scope' → "result" ∈ scope' → Node.AllClosed u scope' rest) →
    Node.AllClosed u scope (body.map .stmt ++ rest)
  locals : (body.flatMap Statement.declared).Nodup

section Bodies

variable {u : ClassUnit} {scope : List String}

theorem declared_of_fits {ss : List Statement} (h : ∀ s ∈ ss, s.Fits u scope) :
    ss.flatMap Statement.declared = [] :=
  List.flatMap_eq_nil_iff.2 fun s hs => (h s hs).declared

theorem introduces_result {type : TypeRef} {value : Expr} {after : List Statement}
    (hvalue : value.Closed u scope) (hafter : ∀ s ∈ after, s.Fits u ("result" :: scope)) :
    Introduces u scope (Plan.declareResult type value :: after) where
  closed := by
    intro rest hrest
    refine Node.allClosed_declare hvalue (Node.allClosed_fits hafter ?_)
    exact hrest _ (List.subset_cons_self ..) (List.mem_cons_self ..)
  locals := by
    rw [List.flatMap_cons, declared_of_fits hafter]
    exact List.nodup_singleton _

theorem closed_result (hresult : "result" ∈ scope) : Plan.result.Closed u scope :=
  hresult

theorem closed_create {method : String} {args : List Expr} (hc : "_c" ∈ scope)
    (hargs : ∀ e ∈ args, e.Closed u scope) : (Plan.create method args).Closed u scope :=
  ⟨hc, Expr.allClosed_iff.2 hargs⟩

theorem closed_lit (value : Literal) : (Expr.lit value).Closed u scope :=
  trivial

theorem fits_callOnResult {method : String} {args : List Expr} (hresult : "result" ∈ scope)
    (hargs : ∀ e ∈ args, e.Closed u scope) :
    (Statement.eval (.call Plan.result method args)).Fits u scope :=
  Statement.fits_eval ⟨hresult, Expr.allClosed_iff.2 hargs⟩

theorem fits_setOnResult {name : String} {value : Literal} (hresult : "result" ∈ scope) :
    (Plan.setOnResult name value).Fits u scope :=
  Statement.fits_setProperty hresult (closed_lit value)

theorem fits_visualProperties (v : VisualProperties Float) (hresult : "result" ∈ scope) :
    ∀ s ∈ Plan.visualProperties v, s.Fits u scope := by
  intro s hs
  obtain ⟨name, _, value, rfl⟩ := Plan.mem_visualProperties hs
  exact fits_setOnResult hresult

theorem closed_easingArgs (easing : Easing Float) (hc : "_c" ∈ scope) :
    ∀ e ∈ Plan.easingArgs easing, e.Closed u scope := by
  intro e he
  cases easing with
  | linear => cases he
  | hold =>
      obtain rfl := List.mem_singleton.1 he
      exact closed_create hc (by simp)
  | cubicBezier first second =>
      obtain rfl := List.mem_singleton.1 he
      refine closed_create hc fun e he => ?_
      rcases List.mem_pair.1 he with rfl | rfl <;> exact closed_lit _

theorem fits_insertKeyFrame (progress : Float) (value : Literal) (easing : Easing Float)
    (hc : "_c" ∈ scope) (hresult : "result" ∈ scope) :
    (Plan.insertKeyFrame progress value easing).Fits u scope := by
  refine fits_callOnResult hresult fun e he => ?_
  rcases List.mem_cons.1 he with rfl | he
  · exact closed_lit _
  · rcases List.mem_cons.1 he with rfl | he
    · exact closed_lit _
    · exact closed_easingArgs easing hc e he

theorem fits_timed {p : Plan} {duration : Statement} {ss : List Statement}
    (hresult : "result" ∈ scope) (hduration : p.setDuration = .ok duration)
    (h : ∀ s ∈ ss, s.Fits u scope) : ∀ s ∈ duration :: ss, s.Fits u scope := by
  rw [Plan.setDuration] at hduration
  obtain ⟨ticks, _, hduration⟩ := bind_eq_ok.1 hduration
  cases hduration
  exact List.forall_mem_cons.2 ⟨fits_setOnResult hresult, h⟩

theorem closed_sourceParameter (p : Plan) (name : String) : (p.sourceParameter name).Closed u scope :=
  ⟨closed_lit _, trivial⟩

theorem fits_effectSettings (p : Plan) {holder : String} (effect : Effect)
    (hholder : holder ∈ scope) : ∀ s ∈ p.effectSettings holder effect, s.Fits u scope := by
  intro s hs
  have hclosed : (Expr.var holder).Closed u scope := hholder
  cases effect with
  | gaussianBlur amount source =>
      rcases List.mem_append.1 hs with hs | hs
      · obtain ⟨amount, _, rfl⟩ := List.mem_map.1 hs
        exact Statement.fits_setProperty hclosed (closed_lit _)
      · obtain ⟨source, _, rfl⟩ := List.mem_map.1 hs
        exact Statement.fits_setProperty hclosed (closed_sourceParameter p source)
  | composite mode sources =>
      rcases List.mem_cons.1 hs with rfl | hs
      · exact Statement.fits_setProperty hclosed trivial
      · obtain ⟨source, _, rfl⟩ := List.mem_map.1 hs
        exact Statement.fits_eval ⟨hclosed, closed_sourceParameter p source, trivial⟩

theorem holder_ne (kind : EffectKind) :
    ∀ name ∈ ["effectFactory", "result"], lowerFirst kind.name ≠ name := by
  cases kind <;> decide +kernel

end Bodies

section Factories

variable {x : Parts} {g : Graph} {t : Target} (hx : x.Of g t) {scope : List String}
  {ss : List Statement}

include hx

theorem closed_factoryCall {i : Nat} {e : Expr} (h : x.plan.factoryCall i = .ok e) :
    e.Closed x.unit scope := by
  obtain ⟨name, hname, rfl⟩ := Plan.factoryCall_eq_ok h
  exact ⟨Parts.answers_factory hx hname, trivial⟩

theorem fits_calling {α : Type} {f : α → Except Fault Statement} {items : List α}
    {target : α → Nat} (around : α → Expr → Statement)
    (hf : ∀ item, f item = do return around item (← x.plan.factoryCall (target item)))
    (haround : ∀ item e, e.Closed x.unit scope → (around item e).Fits x.unit scope)
    (h : items.mapM f = .ok ss) : ∀ s ∈ ss, s.Fits x.unit scope := by
  intro s hs
  obtain ⟨item, e, he, rfl⟩ := Plan.mem_calling around hf h hs
  exact haround item e (closed_factoryCall hx he)

theorem fits_startAnimations {animators : List Animator} (hresult : "result" ∈ scope)
    (h : animators.mapM x.plan.startAnimation = .ok ss) : ∀ s ∈ ss, s.Fits x.unit scope := by
  refine fits_calling hx
    (fun (a : Animator) e => .eval (.call Plan.result "StartAnimation" [.text a.property, e]))
    (fun _ => rfl) (fun item e he => fits_callOnResult hresult ?_) h
  simpa using ⟨closed_lit _, he⟩

theorem fits_setReferences {references : List NamedReference}
    (htheme : ∀ r ∈ references, r.target = .theme → x.usesTheme = true) (hresult : "result" ∈ scope)
    (h : references.mapM x.plan.setReference = .ok ss) : ∀ s ∈ ss, s.Fits x.unit scope := by
  intro s hs
  obtain ⟨⟨name, target⟩, hr, hstatement⟩ := exists_of_mem_right (mapM_eq_ok.1 h) hs
  cases target with
  | node i =>
      rw [Plan.setReference] at hstatement
      obtain ⟨e, he, hstatement⟩ := bind_eq_ok.1 hstatement
      cases hstatement
      refine fits_callOnResult hresult ?_
      simpa using ⟨closed_lit _, closed_factoryCall hx he⟩
  | theme =>
      cases hstatement
      have hclosed : (Expr.selfCall "EnsureThemeProperties" []).Closed x.unit scope :=
        ⟨Parts.answers_ensureTheme hx (htheme _ hr rfl), trivial⟩
      refine fits_callOnResult hresult ?_
      simpa using ⟨closed_lit _, hclosed⟩

theorem introduces_container {type : TypeRef} {value : Expr} {setup inserts animations : List Statement}
    {children : List Nat} (hvalue : value.Closed x.unit scope)
    (hsetup : ∀ s ∈ setup, s.Fits x.unit ("result" :: scope))
    (hinserts : x.plan.insertChildren children = .ok inserts)
    (hanimations : ∀ scope', "result" ∈ scope' → ∀ s ∈ animations, s.Fits x.unit scope') :
    Introduces x.unit scope (Plan.declareResult type value :: (setup ++ inserts ++ animations)) := by
  cases children with
  | nil =>
      cases hinserts
      refine introduces_result hvalue fun s hs => ?_
      rcases List.mem_append.1 hs with hs | hs
      · exact hsetup s (by simpa using hs)
      · exact hanimations _ (List.mem_cons_self ..) s hs
  | cons child children =>
      rw [Plan.insertChildren] at hinserts
      · obtain ⟨calls, hcalls, hinserts⟩ := bind_eq_ok.1 hinserts
        cases hinserts
        have hresult : "result" ∈ "children" :: "result" :: scope := by simp
        have hinsert : ∀ s ∈ calls, s.Fits x.unit ("children" :: "result" :: scope) :=
          fits_calling hx (fun _ e => .eval (.call (.var "children") "InsertAtTop" [e]))
            (fun _ => rfl)
            (fun _ e he => Statement.fits_eval ⟨List.mem_cons_self .., he, trivial⟩) hcalls
        have hanimate := hanimations _ hresult
        refine ⟨fun rest hrest => ?_, ?_⟩
        · simp only [List.map_cons, List.map_append, List.cons_append, List.append_assoc]
          refine Node.allClosed_declare hvalue (Node.allClosed_fits hsetup ?_)
          refine Node.allClosed_declare (List.mem_cons_self ..) (Node.allClosed_fits hinsert ?_)
          refine Node.allClosed_fits hanimate (hrest _ ?_ hresult)
          exact fun name hname => List.mem_cons_of_mem _ (List.mem_cons_of_mem _ hname)
        · simp [declared_of_fits hsetup, declared_of_fits hinsert, declared_of_fits hanimate,
            Plan.declareResult, Statement.declared]
      · simp

theorem introduces_effectBrush {i : Nat} {type : TypeRef} {body : List Statement}
    (hc : "_c" ∈ scope) (h : x.plan.effectBrush i type = .ok body) :
    Introduces x.unit scope body := by
  rw [Plan.effectBrush] at h
  obtain ⟨⟨effect, sources⟩, _, h⟩ := bind_eq_ok.1 h
  obtain ⟨links, hlinks, h⟩ := bind_eq_ok.1 h
  cases h
  let holder := lowerFirst effect.kind.name
  have hsettings : ∀ s ∈ x.plan.effectSettings holder effect, s.Fits x.unit (holder :: scope) :=
    fits_effectSettings x.plan effect (List.mem_cons_self ..)
  have hlink : ∀ s ∈ links, s.Fits x.unit ("result" :: "effectFactory" :: holder :: scope) := by
    refine fits_calling hx
      (fun (source : String × Nat) e =>
        .eval (.call Plan.result "SetSourceParameter" [.text source.1, e]))
      (fun _ => rfl) (fun _ e he => fits_callOnResult (List.mem_cons_self ..) ?_) hlinks
    simpa using ⟨closed_lit _, he⟩
  have hfactory : (Plan.create "CreateEffectFactory" [.var holder]).Closed x.unit (holder :: scope) := by
    refine closed_create (List.mem_cons_of_mem _ hc) fun e he => ?_
    obtain rfl := List.mem_singleton.1 he
    exact List.mem_cons_self ..
  refine ⟨fun rest hrest => ?_, ?_⟩
  · simp only [List.map_cons, List.map_append, List.cons_append, List.append_assoc,
      List.nil_append]
    refine Node.allClosed_declare trivial (Node.allClosed_fits hsettings ?_)
    refine Node.allClosed_declare hfactory (Node.allClosed_declare ?_ (Node.allClosed_fits hlink ?_))
    · exact ⟨List.mem_cons_self .., trivial⟩
    · refine hrest _ (fun name hname => ?_) (List.mem_cons_self ..)
      simp [hname]
  · have hnames : ∀ name ∈ ["effectFactory", "result"], holder ≠ name := holder_ne effect.kind
    rw [List.flatMap_cons, List.flatMap_append, List.flatMap_append, declared_of_fits hsettings,
      declared_of_fits hlink]
    change (holder :: ["effectFactory", "result"]).Nodup
    exact List.nodup_cons.2 ⟨fun hmem => hnames _ hmem rfl, by decide⟩

theorem introduces_objectStatements {i : Nat} {o : CompositionObject} {body : List Statement}
    (htheme : o.referencesTheme = true → x.usesTheme = true) (hc : "_c" ∈ scope)
    (h : x.plan.objectStatements i o = .ok body) : Introduces x.unit scope body := by
  have hresult : "result" ∈ "result" :: scope := List.mem_cons_self ..
  have hcompositor : "_c" ∈ "result" :: scope := List.mem_cons_of_mem _ hc
  cases o with
  | containerVisual properties children animators =>
      obtain ⟨inserts, hinserts, h⟩ := bind_eq_ok.1 h
      obtain ⟨animations, hanimations, h⟩ := bind_eq_ok.1 h
      cases h
      exact introduces_container hx (closed_create hc (by simp))
        (fits_visualProperties properties hresult) hinserts
        fun _ hscope => fits_startAnimations hx hscope hanimations
  | spriteVisual properties brush animators =>
      obtain ⟨sets, hsets, h⟩ := bind_eq_ok.1 h
      obtain ⟨animations, hanimations, h⟩ := bind_eq_ok.1 h
      cases h
      refine introduces_result (closed_create hc (by simp)) fun s hs => ?_
      rcases List.mem_append.1 hs with hs | hs
      · rcases List.mem_append.1 hs with hs | hs
        · exact fits_visualProperties properties hresult s hs
        · exact fits_calling hx (fun _ e => .setProperty Plan.result "Brush" e) (fun _ => rfl)
            (fun _ e he => Statement.fits_setProperty hresult he) hsets s hs
      · exact fits_startAnimations hx hresult hanimations s hs
  | colorBrush color animators =>
      obtain ⟨animations, hanimations, h⟩ := bind_eq_ok.1 h
      cases h
      exact introduces_result (closed_create hc (by simp [closed_lit]))
        (fits_startAnimations hx hresult hanimations)
  | effectBrush effect sources => exact introduces_effectBrush hx hc h
  | surfaceBrush surface =>
      obtain ⟨e, he, h⟩ := bind_eq_ok.1 h
      cases h
      exact introduces_result (closed_create hc (by simpa using closed_factoryCall hx he)) (by simp)
  | imageSurface assetId uri =>
      cases h
      exact introduces_result ⟨⟨closed_lit _, trivial⟩, trivial⟩ (by simp)
  | scalarAnimation keyFrames =>
      obtain ⟨duration, hduration, h⟩ := bind_eq_ok.1 h
      cases h
      refine introduces_result (closed_create hc (by simp))
        (fits_timed hresult hduration fun s hs => ?_)
      obtain ⟨k, _, rfl⟩ := List.mem_map.1 hs
      exact fits_insertKeyFrame _ _ _ hcompositor hresult
  | vector2Animation keyFrames =>
      obtain ⟨duration, hduration, h⟩ := bind_eq_ok.1 h
      cases h
      refine introduces_result (closed_create hc (by simp))
        (fits_timed hresult hduration fun s hs => ?_)
      obtain ⟨k, _, rfl⟩ := List.mem_map.1 hs
      exact fits_insertKeyFrame _ _ _ hcompositor hresult
  | expressionAnimation expression references =>
      obtain ⟨sets, hsets, h⟩ := bind_eq_ok.1 h
      cases h
      refine introduces_result (closed_create hc fun e he => List.mem_singleton.1 he ▸ closed_lit _)
        (fits_setReferences hx (fun r hr hr' => htheme ?_) hresult hsets)
      exact List.any_eq_true.2 ⟨r, hr, by simp [hr']⟩

end Factories

section Members

@[simp] theorem Node.allStatements_append (nodes rest : List Node) :
    Node.allStatements (nodes ++ rest) = Node.allStatements nodes ++ Node.allStatements rest := by
  induction nodes with
  | nil => rfl
  | cons n nodes ih => simp [Node.allStatements, ih]

@[simp] theorem Node.allStatements_map_stmt (ss : List Statement) :
    Node.allStatements (ss.map .stmt) = ss := by
  induction ss with
  | nil => rfl
  | cons s ss ih => simp [Node.allStatements, Node.statements, ih]

theorem wellScoped_ordinary {u : ClassUnit} {name : String} {returns : TypeRef} {before : List Node}
    {value : Expr} (hclosed : Node.AllClosed u u.fieldNames (before ++ [Node.stmt (.ret (some value))]))
    (hlocals : ((Node.allStatements before).flatMap Statement.declared).Nodup) :
    (Plan.ordinary name returns (before ++ [Node.stmt (.ret (some value))])).WellScoped u where
  closed := ⟨by simp [Plan.ordinary], hclosed⟩
  locals := by
    simpa [Method.parameterNames, Plan.ordinary, Tree.locals, Tree.statements, Node.allStatements,
      Node.statements, Statement.declared] using hlocals
  static := nofun
  returns := fun _ => ⟨before, value, rfl⟩

theorem Parts.mem_accessors {x : Parts} {a : Accessor} (ha : a ∈ x.unit.accessors) :
    ∃ b ∈ x.plan.graph.bindings.values, a = Plan.bindingAccessor b := by
  rw [Parts.unit, Plan.accessorList] at ha
  split at ha
  · obtain ⟨b, hb, rfl⟩ := List.mem_map.1 ha
    exact ⟨b, hb, rfl⟩
  · cases ha

variable {x : Parts} {g : Graph} {t : Target} (hx : x.Of g t)

include hx

theorem mem_fieldNames_compositor : "_c" ∈ x.unit.fieldNames :=
  (Parts.mem_fieldNames hx).2 (.inl (by simp [Plan.coreFields]))

theorem mem_fieldNames_root : "_root" ∈ x.unit.fieldNames :=
  (Parts.mem_fieldNames hx).2 (.inl (by simp [Plan.coreFields]))

theorem mem_fieldNames_theme (htheme : x.usesTheme = true) :
    "_themeProperties" ∈ x.unit.fieldNames :=
  (Parts.mem_fieldNames hx).2 (.inl (by simp [Plan.coreFields, htheme]))

theorem mem_fieldNames_backing {b : Binding} (hb : b ∈ x.plan.graph.bindings.values) :
    Plan.backingField b ∈ x.unit.fieldNames :=
  (Parts.mem_fieldNames hx).2 (.inr (.inl (List.mem_map_of_mem hb)))

theorem mem_fieldNames_cache {i : Nat} {name : String} (hi : i ∈ x.plan.shared)
    (hname : x.plan.nameOf i = .ok name) : Plan.cacheField name ∈ x.unit.fieldNames :=
  (Parts.mem_fieldNames hx).2 (.inr (.inr ⟨i, name, hi, hname, rfl⟩))

theorem closed_insertValue {b : Binding} {scope : List String} {value : Expr}
    (hb : b ∈ x.plan.graph.bindings.values) (hset : "_themeProperties" ∈ scope)
    (hvalue : value.Closed x.unit scope) : (Plan.insertValue b value).Fits x.unit scope := by
  refine Statement.fits_eval ⟨hset, closed_lit _, ?_, trivial⟩
  unfold Plan.storedValue
  split
  · next hconverts => exact ⟨Parts.answers_color hx hb hconverts, hvalue, trivial⟩
  · exact hvalue

theorem wellScoped_constructor : (x.plan.constructorMethod x.rootFactory).WellScoped x.unit where
  closed := by
    have hcompositor : (Statement.assign "_c" (.var "compositor")).Fits x.unit
        ("compositor" :: x.unit.fieldNames) :=
      Statement.fits_assign (List.mem_cons_of_mem _ (mem_fieldNames_compositor hx))
        (List.mem_cons_self ..)
    have hroot : (Statement.assign "_root" (.selfCall x.rootFactory [])).Fits x.unit
        ("compositor" :: x.unit.fieldNames) :=
      Statement.fits_assign (List.mem_cons_of_mem _ (mem_fieldNames_root hx))
        ⟨Parts.answers_factory hx hx.rootFactory, trivial⟩
    exact ⟨by simp [Plan.constructorMethod], hcompositor.closed, hroot.closed, trivial⟩
  locals := by
    simp [Method.parameterNames, Plan.constructorMethod, Tree.locals, Tree.statements,
      Node.allStatements, Node.statements, Statement.declared]
  static := nofun
  returns := nofun

theorem wellScoped_getter {m : Method} (hm : m ∈ x.plan.getterMethods x.ticks) :
    m.WellScoped x.unit := by
  have hgetter : ∀ name type value comment, Expr.Closed x.unit x.unit.fieldNames value →
      (Plan.getterMethod name type value comment).WellScoped x.unit := by
    intro name type value comment hvalue
    have h : (Plan.ordinary name type ([] ++ [Node.stmt (.ret (some value))])).WellScoped x.unit :=
      wellScoped_ordinary (Node.allClosed_return hvalue) List.nodup_nil
    exact ⟨h.closed, h.locals, nofun, h.returns⟩
  simp only [Plan.getterMethods, List.mem_cons, List.not_mem_nil, or_false] at hm
  rcases hm with rfl | rfl | rfl
  · exact hgetter _ _ _ _ (mem_fieldNames_root hx)
  · exact hgetter _ _ _ _ (closed_lit _)
  · exact hgetter _ _ _ _ (closed_lit _)

theorem wellScoped_ensureTheme (htheme : x.usesTheme = true) :
    x.plan.ensureThemeMethod.WellScoped x.unit := by
  have hset := mem_fieldNames_theme hx htheme
  have hmake : (Statement.assign "_themeProperties" (Plan.create "CreatePropertySet" [])).Fits x.unit
      x.unit.fieldNames :=
    Statement.fits_assign hset (closed_create (mem_fieldNames_compositor hx) (by simp))
  have hseeds : ∀ s ∈ x.plan.graph.bindings.values.map Plan.seedStatement,
      s.Fits x.unit x.unit.fieldNames := by
    intro s hs
    obtain ⟨b, hb, rfl⟩ := List.mem_map.1 hs
    exact closed_insertValue hx hb hset (mem_fieldNames_backing hx hb)
  refine wellScoped_ordinary ?_ ?_
  · exact Node.allClosed_kept hset
      ⟨hmake.closed, Node.allClosed_fits hseeds (Node.allClosed_return hset)⟩
  · rw [Node.allStatements_append, Node.allStatements_map_stmt, List.flatMap_append,
      declared_of_fits hseeds]
    exact List.nodup_nil

theorem wellScoped_color : Plan.colorMethod.WellScoped x.unit := by
  have hclosed : ∀ scope, Plan.colorMethod.body.Closed x.unit ("color" :: scope) := by
    intro scope
    have hcolor : (Expr.var "color").Closed x.unit ("color" :: scope) := List.mem_cons_self ..
    have hvalue : (Expr.construct (.builtIn .vector4) [.field (.var "color") "R",
        .field (.var "color") "G", .field (.var "color") "B", .field (.var "color") "A"]).Closed
          x.unit ("color" :: scope) := ⟨hcolor, hcolor, hcolor, hcolor, trivial⟩
    exact ⟨by simp [Plan.colorMethod, Plan.ordinary], Node.allClosed_return hvalue⟩
  have hlocals : Plan.colorMethod.parameterNames ++ Plan.colorMethod.body.locals = ["color"] := rfl
  refine ⟨hclosed _, hlocals ▸ List.nodup_singleton _, fun _ => ⟨hclosed [], ?_⟩,
    fun _ => ⟨[], _, rfl⟩⟩
  rw [hlocals]
  intro name hname hfield
  have hhead := Parts.fieldNames_head hx name hfield
  rw [List.mem_singleton.1 hname] at hhead
  exact absurd hhead (by decide)

theorem wellScoped_factory {m : Method} (hm : m ∈ x.factories) : m.WellScoped x.unit := by
  have hgraph := hx.planned.graph
  subst hgraph
  obtain ⟨i, hi, hfactory⟩ := exists_of_mem_right hx.factories hm
  obtain ⟨o, name, body, ho, hname, hbody, rfl⟩ := Plan.factory_eq_ok hfactory
  have hbodies := introduces_objectStatements hx (usesTheme_of_referencesTheme hx hi ho)
    (mem_fieldNames_compositor hx) hbody
  rw [Plan.factoryNodes]
  cases hshared : x.plan.shared.contains i with
  | false =>
      simp only [Bool.false_eq_true, if_false, List.nil_append, List.append_nil]
      refine wellScoped_ordinary (hbodies.closed _ fun _ _ hresult =>
        Node.allClosed_return (closed_result hresult)) ?_
      rw [Node.allStatements_map_stmt]
      exact hbodies.locals
  | true =>
      have hfield := mem_fieldNames_cache hx (List.contains_iff_mem.1 hshared) hname
      simp only [if_true]
      refine wellScoped_ordinary ?_ ?_
      · simp only [List.append_assoc, List.cons_append, List.nil_append]
        refine Node.allClosed_kept hfield (hbodies.closed _ fun scope hsub hresult => ?_)
        have hvalue : Plan.result.Closed x.unit scope := closed_result hresult
        exact ⟨(Statement.fits_assign (hsub hfield) hvalue).closed, Node.allClosed_return hvalue⟩
      · rw [Node.allStatements_append, Node.allStatements_append, Node.allStatements_map_stmt,
          List.flatMap_append, List.flatMap_append]
        exact (List.append_nil _).symm ▸ hbodies.locals

theorem wellScoped_method {m : Method} (hm : m ∈ x.unit.methods) : m.WellScoped x.unit := by
  rcases List.mem_cons.1 hm with rfl | hm
  · exact wellScoped_constructor hx
  · rcases List.mem_append.1 hm with hm | hm
    · rcases List.mem_append.1 hm with hm | hm
      · exact wellScoped_getter hx hm
      · rw [Plan.themeMethodList] at hm
        split at hm
        · next htheme =>
            rcases List.mem_cons.1 hm with rfl | hm
            · exact wellScoped_ensureTheme hx htheme
            · split at hm
              · rw [List.mem_singleton.1 hm]
                exact wellScoped_color hx
              · cases hm
        · cases hm
    · exact wellScoped_factory hx hm

theorem closed_setter {b : Binding} (hb : b ∈ x.plan.graph.bindings.values) :
    (Plan.bindingAccessor b).setter.Closed x.unit ("value" :: x.unit.fieldNames) := by
  have hset : "_themeProperties" ∈ "value" :: x.unit.fieldNames :=
    List.mem_cons_of_mem _ (mem_fieldNames_theme hx (Parts.usesTheme_of_binding hx hb))
  have hvalue : (Expr.var "value").Closed x.unit ("value" :: x.unit.fieldNames) :=
    List.mem_cons_self ..
  have hassign : (Statement.assign (Plan.backingField b) (.var "value")).Fits x.unit
      ("value" :: x.unit.fieldNames) :=
    Statement.fits_assign (List.mem_cons_of_mem _ (mem_fieldNames_backing hx hb)) hvalue
  have hinsert := closed_insertValue hx hb hset hvalue
  have hguard : ∀ e ∈ some (Expr.notNull Plan.themeSet),
      e.Closed x.unit ("value" :: x.unit.fieldNames) := by
    rintro e ⟨⟩
    exact hset
  exact ⟨by simp [Plan.bindingAccessor], hassign.closed, ⟨hguard, hinsert.closed, trivial⟩, trivial⟩

end Members

theorem lower_wellScoped {g : Graph} {t : Target} {u : ClassUnit} (hu : g.lower t = .ok u) :
    u.WellScoped := by
  obtain ⟨x, hx, rfl⟩ := Graph.lower_parts hu
  have hgraph := hx.planned.graph
  subst hgraph
  refine ⟨fun f hf e he => ?_, fun m => wellScoped_method hx, fun a ha => ?_, fun a ha => ?_⟩
  · rcases plain_fields hx f hf with hinit | ⟨value, hinit⟩
    · rw [hinit] at he
      cases he
    · rw [hinit] at he
      cases he
      exact closed_lit value
  · obtain ⟨b, hb, rfl⟩ := Parts.mem_accessors ha
    exact mem_fieldNames_backing hx hb
  · obtain ⟨b, hb, rfl⟩ := Parts.mem_accessors ha
    exact closed_setter hx hb

def tintBinding : Binding :=
  ⟨"Tint", "Tint", .vector4, .color, .color ⟨0, 0, 0, 1⟩⟩

def tintedScene : Graph where
  objects := [.containerVisual {} [1, 1] [⟨"Opacity", 4⟩], .spriteVisual {} (some 2) [],
    .effectBrush (.composite .sourceOver ["source"]) [⟨"source", 3⟩],
    .colorBrush ⟨0, 0, 0, 1⟩ [⟨"Color", 4⟩], .expressionAnimation "theme.Tint" [⟨"theme", .theme⟩]]
  root := some 0
  bindings := ⟨[("Tint", tintBinding)]⟩

def tintedTarget : Target where
  language := .csharp
  size := ⟨1, 1⟩
  nanoseconds := 100

def tintedPlan : Plan :=
  ⟨tintedTarget, tintedScene, [0, 1, 2, 3, 4],
    [(0, "ContainerVisual_0"), (1, "SpriteVisual_0"), (2, "CompositionEffectBrush_0"),
      (3, "CompositionColorBrush_0"), (4, "ExpressionAnimation_0")], [1, 4]⟩

def tintedParts : Parts where
  plan := tintedPlan
  usesTheme := true
  root := 0
  rootFactory := "ContainerVisual_0"
  ticks := 1
  factories := [0, 1, 2, 3, 4].filterMap fun i => (tintedPlan.factory i).toOption
  sharedFields := [⟨"_spriteVisual_0", tintedPlan.objectType .spriteVisual, none⟩,
    ⟨"_expressionAnimation_0", tintedPlan.objectType .expressionAnimation, none⟩]
  assets := []

theorem preorder_tintedScene : tintedScene.preorder = .ok tintedPlan.order := by
  cbv

theorem tintedParts_of : tintedParts.Of tintedScene tintedTarget where
  plan := by
    have hvalid : tintedScene.validate = .ok () := Graph.validate_of_checks rfl rfl (by cbv)
    exact Plan.ofGraph_eq hvalid preorder_tintedScene (by decide) rfl
  bindings := by decide +kernel
  theme := rfl
  root := rfl
  rootFactory := rfl
  ticks := rfl
  factories := .cons rfl (.cons rfl (.cons rfl (.cons rfl (.cons rfl .nil))))
  sharedFields := .cons rfl (.cons rfl .nil)
  assets := by
    rw [Graph.referencedAssets, preorder_tintedScene]
    rfl

theorem lower_wellScoped_tintedScene :
    ∃ u m, tintedScene.lower tintedTarget = .ok u
      ∧ u.fieldNames = ["_c", "_root", "_themeProperties", "_themeTint", "_spriteVisual_0",
        "_expressionAnimation_0"]
      ∧ u.accessors.map (·.name) = ["Tint"] ∧ m ∈ u.methods
      ∧ m.name = "CompositionEffectBrush_0"
      ∧ m.body.locals = ["compositeEffect", "effectFactory", "result"]
      ∧ m.WellScoped u ∧ u.WellScoped := by
  have hu := tintedParts_of.lower_eq
  obtain ⟨m, hm⟩ : ∃ m, tintedPlan.factory 2 = .ok m := ⟨_, rfl⟩
  have hmem := tintedParts_of.factory_mem
    (List.mem_cons_of_mem _ (List.mem_cons_of_mem _ (List.mem_cons_self ..))) hm
  cases hm
  have hscoped := lower_wellScoped hu
  exact ⟨_, _, hu, rfl, rfl, hmem, rfl, rfl, hscoped.methods _ hmem, hscoped⟩

end Scenograph
