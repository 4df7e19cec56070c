import Scenograph.Proofs.Execution.Wiring

namespace Scenograph

def HasResult (a : Nat) (locals : Store) : Prop :=
  locals.lookup "result" = some (.object a)

def HasAnswer (name : String) (locals : Store) : Prop :=
  ∃ v, locals.lookup name = some v ∧ IsAnswer v

def Creates (x : Parts) (P : Store → Prop) (e : Expr) (kind : ObjectKind) : Prop :=
  ∀ depth, 2 ≤ depth → ∀ locals m, locals.NoFields → P locals → Ready x m.fields →
    ∃ m' r, Quiet m m' ∧ r.kind? = some kind ∧ r.link? m'.next = none
      ∧ e.eval (x.unit.invoke depth) locals m = .ok (m'.ask r)

def Builds (x : Parts) (method : String) (o : CompositionObject) (body : List Statement) : Prop :=
  ∃ before type value after P, body = before ++ Plan.declareResult type value :: after
    ∧ Runs x method (fun _ => True) before P ∧ Creates x P value o.kind
    ∧ ∀ a, Wires x method a (HasResult a) o.wires after (HasResult a)

theorem IsAnswer.ne_null {v : Value} (h : IsAnswer v) : v ≠ .null := by
  obtain ⟨id, rfl⟩ := h
  simp

theorem IsAnswer.object? {v : Value} (h : IsAnswer v) : v.object? = none := by
  obtain ⟨id, rfl⟩ := h
  rfl

section Setup

variable {x : Parts} {method : String} {a : Nat} {P : Store → Prop} {V : Value → Prop}

theorem creates_call {receiver : Expr} {name : String} {args : List Expr} {kind : ObjectKind}
    (hkind : ObjectKind.all.find? (·.maker == name) = some kind)
    (hname : name ∉ "CreateSurfaceBrush" :: "InsertAtTop" :: linkMethods)
    (hreceiver : Evaluates x P receiver V) (hnull : ∀ v, V v → v ≠ .null)
    (hargs : ∀ e ∈ args, Evaluates x P e fun _ => True) :
    Creates x P (.call receiver name args) kind := by
  intro depth hdepth locals m hlocals hP hm
  obtain ⟨v, m₁, hv, hq₁, heval⟩ := hreceiver depth hdepth locals m hlocals hP hm
  obtain ⟨vs, m₂, _, hq₂, hevals⟩ :=
    evaluatesAll_any hargs depth hdepth locals m₁ hlocals hP (hm.quiet hq₁)
  refine ⟨m₂, .call v name vs, hq₁.trans hq₂, hkind, Request.link?_call_eq_none hname, ?_⟩
  simp [Expr.eval, heval, hevals, Value.receive_of_ne_null (hnull v hv)]

theorem evaluates_text (text : String) : Evaluates x P (.text text) fun _ => True :=
  (evaluates_lit (.string text)).any

theorem evaluates_plainCall {receiver : Expr} {name : String} {args : List Expr}
    (hkind : ObjectKind.all.find? (·.maker == name) = none)
    (hname : name ∉ "CreateSurfaceBrush" :: "InsertAtTop" :: linkMethods)
    (hreceiver : Evaluates x P receiver V) (hnull : ∀ v, V v → v ≠ .null)
    (hargs : ∀ e ∈ args, Evaluates x P e fun _ => True) :
    Evaluates x P (.call receiver name args) IsAnswer :=
  evaluates_call hkind hreceiver hnull (evaluatesAll_any hargs)
    fun _ _ _ _ _ => Request.link?_call_eq_none hname

theorem evaluates_result : Evaluates x (HasResult a) Plan.result (· = .object a) :=
  evaluates_local fun _ h => ⟨_, h, rfl⟩

theorem object_ne_null : ∀ v, v = Value.object a → v ≠ .null := by
  rintro v rfl
  simp

theorem runs_setOnResult {name : String} {value : Literal} (hname : name ≠ "Brush") :
    Runs x method (HasResult a) [Plan.setOnResult name value] (HasResult a) :=
  runs_setProperty evaluates_result object_ne_null (evaluates_lit value)
    fun _ _ _ _ _ => by simp [Request.link?, hname]

theorem runs_visualProperties (v : VisualProperties Float) :
    Runs x method (HasResult a) (Plan.visualProperties v) (HasResult a) := by
  apply runs_all
  intro s hs
  obtain ⟨name, hname, value, rfl⟩ := Plan.mem_visualProperties hs
  have hbrush : "Brush" ∉ Plan.visualNames := by decide
  exact runs_setOnResult fun heq => hbrush (heq ▸ hname)

theorem evaluates_easingArgs (easing : Easing Float) :
    ∀ e ∈ Plan.easingArgs easing, Evaluates x P e fun _ => True := by
  intro e he
  cases easing with
  | linear => cases he
  | hold =>
      obtain rfl := List.mem_singleton.1 he
      exact (evaluates_plainCall (by decide) (by decide) evaluates_compositor (fun _ => id)
        (by simp)).any
  | cubicBezier first second =>
      obtain rfl := List.mem_singleton.1 he
      refine (evaluates_plainCall (by decide) (by decide) evaluates_compositor (fun _ => id) ?_).any
      intro e he
      rcases List.mem_pair.1 he with rfl | rfl <;> exact (evaluates_lit _).any

theorem runs_insertKeyFrame (progress : Float) (value : Literal) (easing : Easing Float) :
    Runs x method (HasResult a) [Plan.insertKeyFrame progress value easing] (HasResult a) := by
  refine runs_eval (evaluates_plainCall (by decide) (by decide) evaluates_result object_ne_null ?_)
  intro e he
  rcases List.mem_cons.1 he with rfl | he
  · exact (evaluates_lit _).any
  · rcases List.mem_cons.1 he with rfl | he
    · exact (evaluates_lit _).any
    · exact evaluates_easingArgs easing e he

end Setup

section Edges

variable {x : Parts} {method : String} {a : Nat} {ss : List Statement}

theorem wires_factoryCall {P : Store → Prop} {target : Nat} {via label : String}
    {link : Expr → Statement} {s : Statement}
    (h : (do return link (← x.plan.factoryCall target)) = Except.ok s)
    (hlink : ∀ factory, LinksOnce a P via label factory (link (.selfCall factory []))) :
    Wires x method a P [⟨⟨label, target⟩, via⟩] [s] P := by
  obtain ⟨e, he, h⟩ := bind_eq_ok.1 h
  obtain ⟨factory, hname, rfl⟩ := Plan.factoryCall_eq_ok he
  cases h
  exact LinksOnce.wires hname (hlink factory)

theorem wires_startAnimation {item : Animator} {s : Statement}
    (h : x.plan.startAnimation item = .ok s) :
    Wires x method a (HasResult a) [⟨⟨item.property, item.animation⟩, "StartAnimation"⟩] [s]
      (HasResult a) := by
  rw [Plan.startAnimation] at h
  exact wires_factoryCall h fun _ => linksOnce_call (by decide) fun _ => id

theorem wires_animators {animators : List Animator}
    (h : animators.mapM x.plan.startAnimation = .ok ss) :
    Wires x method a (HasResult a)
      (animators.map fun item => ⟨⟨item.property, item.animation⟩, "StartAnimation"⟩) ss
      (HasResult a) :=
  wires_map (fun _ _ => wires_startAnimation) h

theorem wires_setBrush {brush : Nat} {s : Statement} (h : x.plan.setBrush brush = .ok s) :
    Wires x method a (HasResult a) [⟨⟨"Brush", brush⟩, "Brush"⟩] [s] (HasResult a) := by
  rw [Plan.setBrush] at h
  exact wires_factoryCall h fun _ => linksOnce_brush fun _ => id

theorem wires_setSource {source : String × Nat} {s : Statement}
    (h : x.plan.setSource source = .ok s) :
    Wires x method a (HasResult a) [⟨⟨source.1, source.2⟩, "SetSourceParameter"⟩] [s]
      (HasResult a) := by
  rw [Plan.setSource] at h
  exact wires_factoryCall h fun _ => linksOnce_call (by decide) fun _ => id

def HasChildren (a : Nat) (locals : Store) : Prop :=
  HasResult a locals ∧ locals.lookup "children" = some (.part (.object a) "Children")

theorem wires_insertChild {child : Nat} {s : Statement} (h : x.plan.insertChild child = .ok s) :
    Wires x method a (HasChildren a) [⟨⟨"Children", child⟩, "InsertAtTop"⟩] [s]
      (HasChildren a) := by
  rw [Plan.insertChild] at h
  exact wires_factoryCall h fun _ => linksOnce_insert fun _ hP => hP.2

theorem wires_insertChildren {children : List Nat} (h : x.plan.insertChildren children = .ok ss) :
    Wires x method a (HasResult a) (children.map fun c => ⟨⟨"Children", c⟩, "InsertAtTop"⟩) ss
      (HasResult a) := by
  cases children with
  | nil =>
      cases h
      exact (runs_nil fun _ => id).wires
  | cons child children =>
      rw [Plan.insertChildren] at h
      · obtain ⟨inserts, hinserts, h⟩ := bind_eq_ok.1 h
        cases h
        have hdeclare : Runs x method (HasResult a)
            [.declare (x.plan.compositionType "VisualCollection") "children"
              (.property Plan.result "Children")] (HasChildren a) := by
          refine runs_declare (by decide) (by decide)
            (evaluates_property evaluates_result object_ne_null) ?_
          rintro locals v hlocals ⟨w, rfl, rfl⟩
          exact ⟨hlocals, rfl⟩
        exact (hdeclare.wires.append (wires_map (fun _ _ => wires_insertChild) hinserts)).mono
          fun _ hP => hP.1
      · simp

theorem wires_setReference {r : NamedReference} {s : Statement}
    (htheme : r.target = .theme → x.usesTheme = true) (h : x.plan.setReference r = .ok s) :
    Wires x method a (HasResult a) (r.edge?.toList.map fun e => ⟨e, "SetReferenceParameter"⟩) [s]
      (HasResult a) := by
  obtain ⟨name, target⟩ := r
  cases target with
  | node j =>
      rw [Plan.setReference] at h
      exact wires_factoryCall h fun _ => linksOnce_call (by decide) fun _ => id
  | theme =>
      cases h
      have hargs := evaluatesAll_cons (evaluates_lit (x := x) (P := HasResult a) (.string name))
        (evaluatesAll_cons (evaluates_theme (htheme rfl)) evaluatesAll_nil)
      refine (runs_eval (evaluates_call (by decide) evaluates_result object_ne_null hargs ?_)).wires
      rintro id v _ rfl ⟨_, _, rfl, rfl, w, _, rfl, hw, rfl⟩
      simp [Request.link?, Value.ofLiteral, hw.object?, Link.between?]

theorem wires_references {references : List NamedReference}
    (htheme : ∀ r ∈ references, r.target = .theme → x.usesTheme = true)
    (h : references.mapM x.plan.setReference = .ok ss) :
    Wires x method a (HasResult a)
      ((references.filterMap NamedReference.edge?).map fun e => ⟨e, "SetReferenceParameter"⟩) ss
      (HasResult a) := by
  rw [List.filterMap_eq_flatMap_toList, List.map_flatMap]
  exact wires_flatMap (fun r hr _ => wires_setReference (htheme r hr)) h

end Edges

section Effects

variable {x : Parts} {method : String} {a : Nat} {P : Store → Prop}

theorem evaluates_holder {name : String} : Evaluates x (HasAnswer name) (.var name) IsAnswer :=
  evaluates_local fun _ => id

theorem evaluates_sourceParameter (p : Plan) (name : String) :
    Evaluates x P (p.sourceParameter name) IsAnswer :=
  evaluates_construct (evaluatesAll_any fun e he => by
    obtain rfl := List.mem_singleton.1 he
    exact evaluates_text name)

theorem runs_setOnHolder {holder name : String} {value : Expr} {V : Value → Prop}
    (hvalue : Evaluates x (HasAnswer holder) value V) :
    Runs x method (HasAnswer holder) [.setProperty (.var holder) name value] (HasAnswer holder) :=
  runs_setProperty evaluates_holder (fun _ => IsAnswer.ne_null) hvalue fun _ _ _ hv _ => by
    simp [Request.link?, hv.object?, Link.between?]

theorem runs_addSource {holder : String} (p : Plan) (source : String) :
    Runs x method (HasAnswer holder)
      [.eval (.call (.property (.var holder) "Sources") p.target.language.listAdd
        [p.sourceParameter source])] (HasAnswer holder) := by
  apply runs_eval
  apply evaluates_plainCall
  · cases p.target.language <;> decide
  · cases p.target.language <;> decide
  · exact evaluates_property evaluates_holder fun _ => IsAnswer.ne_null
  · rintro _ ⟨v, _, rfl⟩
    simp
  · intro e he
    obtain rfl := List.mem_singleton.1 he
    exact (evaluates_sourceParameter p source).any

theorem runs_effectSettings {holder : String} (p : Plan) (effect : Effect) :
    Runs x method (HasAnswer holder) (p.effectSettings holder effect) (HasAnswer holder) := by
  cases effect with
  | gaussianBlur amount source =>
      apply Runs.append
      · apply runs_all
        intro s hs
        obtain ⟨y, _, rfl⟩ := List.mem_map.1 hs
        exact runs_setOnHolder (evaluates_lit _)
      · apply runs_all
        intro s hs
        obtain ⟨y, _, rfl⟩ := List.mem_map.1 hs
        exact runs_setOnHolder (evaluates_sourceParameter p y)
  | composite mode sources =>
      apply Runs.append (runs_setOnHolder (evaluates_enumMember _ _))
      apply runs_all
      intro s hs
      obtain ⟨source, _, rfl⟩ := List.mem_map.1 hs
      exact runs_addSource p source

theorem runs_declareAnswer {type : TypeRef} {name : String} {e : Expr} (hname : name ≠ "result")
    (hfield : name.toList.head? ≠ some '_') (h : Evaluates x P e IsAnswer) :
    Runs x method P [.declare type name e] (HasAnswer name) :=
  runs_declare hname hfield h fun _ v _ hv => ⟨v, List.lookup_cons_self, hv⟩

theorem builds_effectBrush {i : Nat} {type : TypeRef} {effect : Effect} {bound : List BoundSource}
    {body : List Statement} (hvalid : x.plan.graph.validate = .ok ())
    (ho : x.plan.graph.objects[i]? = some (.effectBrush effect bound))
    (h : x.plan.effectBrush i type = .ok body) :
    Builds x method (.effectBrush effect bound) body := by
  rw [Plan.effectBrush, Graph.orderedSources_of_valid hvalid ho, ok_bind] at h
  obtain ⟨links, hlinks, h⟩ := bind_eq_ok.1 h
  cases h
  have hholder : Runs x method (fun _ => True) [.declare (.imported Plan.effectsSpace effect.kind.name)
      (lowerFirst effect.kind.name) (.construct (.imported Plan.effectsSpace effect.kind.name) [])]
      (HasAnswer (lowerFirst effect.kind.name)) := by
    apply runs_declareAnswer
    · cases effect.kind <;> decide
    · cases effect.kind <;> decide
    · exact evaluates_construct evaluatesAll_nil
  have hfactory : Runs x method (HasAnswer (lowerFirst effect.kind.name))
      [.declare (x.plan.compositionType "CompositionEffectFactory") "effectFactory"
        (Plan.create "CreateEffectFactory" [.var (lowerFirst effect.kind.name)])]
      (HasAnswer "effectFactory") := by
    refine runs_declareAnswer (by decide) (by decide)
      (evaluates_plainCall (by decide) (by decide) evaluates_compositor (fun _ => id) fun e he => ?_)
    obtain rfl := List.mem_singleton.1 he
    exact evaluates_holder.any
  have hbefore := (hholder.append (runs_effectSettings x.plan effect)).append hfactory
  refine ⟨_, type, .call (.var "effectFactory") "CreateBrush" [], links, _, ?_, hbefore, ?_,
    fun a => ?_⟩
  · simp
  · exact creates_call rfl (by decide) evaluates_holder (fun _ => IsAnswer.ne_null) (by simp)
  · have hwires : Wires x method a (HasResult a)
        ((bound.map fun s => (s.name, s.brush)).map fun source =>
          ⟨⟨source.1, source.2⟩, "SetSourceParameter"⟩) links (HasResult a) :=
      wires_map (fun _ _ => wires_setSource) hlinks
    simpa [CompositionObject.wires, CompositionObject.ownEdges, CompositionObject.animators,
      CompositionObject.kind, ObjectKind.linksVia, Function.comp_def] using hwires

end Effects

section Objects

variable {x : Parts} {method : String} {i : Nat} {body after : List Statement}

theorem builds_create {o : CompositionObject} {type : TypeRef} {name : String} {args : List Expr}
    (hkind : ObjectKind.all.find? (·.maker == name) = some o.kind)
    (hname : name ∉ "CreateSurfaceBrush" :: "InsertAtTop" :: linkMethods)
    (hargs : ∀ e ∈ args, Evaluates x (fun _ => True) e fun _ => True)
    (hafter : ∀ a, Wires x method a (HasResult a) o.wires after (HasResult a)) :
    Builds x method o (Plan.declareResult type (Plan.create name args) :: after) :=
  ⟨[], type, _, after, fun _ => True, rfl, runs_nil fun _ => id,
    creates_call hkind hname evaluates_compositor (fun _ => id) hargs, hafter⟩

theorem builds_containerVisual {properties : VisualProperties Float} {children : List Nat}
    {animators : List Animator}
    (h : x.plan.objectStatements i (.containerVisual properties children animators) = .ok body) :
    Builds x method (.containerVisual properties children animators) body := by
  obtain ⟨inserts, hinserts, h⟩ := bind_eq_ok.1 h
  obtain ⟨starts, hstarts, h⟩ := bind_eq_ok.1 h
  cases h
  refine builds_create rfl (by decide) (by simp) fun a => ?_
  simpa [CompositionObject.wires, CompositionObject.ownEdges, CompositionObject.animators,
    CompositionObject.kind, ObjectKind.linksVia, Function.comp_def] using
    ((runs_visualProperties properties).wires.append (wires_insertChildren hinserts)).append
      (wires_animators hstarts)

theorem builds_spriteVisual {properties : VisualProperties Float} {brush : Option Nat}
    {animators : List Animator}
    (h : x.plan.objectStatements i (.spriteVisual properties brush animators) = .ok body) :
    Builds x method (.spriteVisual properties brush animators) body := by
  obtain ⟨brushes, hbrushes, h⟩ := bind_eq_ok.1 h
  obtain ⟨starts, hstarts, h⟩ := bind_eq_ok.1 h
  cases h
  refine builds_create rfl (by decide) (by simp) fun a => ?_
  simpa [CompositionObject.wires, CompositionObject.ownEdges, CompositionObject.animators,
    CompositionObject.kind, ObjectKind.linksVia, Function.comp_def] using
    ((runs_visualProperties properties).wires.append
      (wires_map (fun _ _ => wires_setBrush) hbrushes)).append (wires_animators hstarts)

theorem builds_colorBrush {color : Color} {animators : List Animator}
    (h : x.plan.objectStatements i (.colorBrush color animators) = .ok body) :
    Builds x method (.colorBrush color animators) body := by
  obtain ⟨starts, hstarts, h⟩ := bind_eq_ok.1 h
  cases h
  refine builds_create rfl (by decide) (fun e he => ?_) fun a => wires_animators hstarts
  obtain rfl := List.mem_singleton.1 he
  exact (evaluates_lit _).any

theorem builds_imageSurface {assetId uri : String}
    (h : x.plan.objectStatements i (.imageSurface assetId uri) = .ok body) :
    Builds x method (.imageSurface assetId uri) body := by
  cases h
  refine ⟨[], _, _, [], fun _ => True, rfl, runs_nil fun _ => id, ?_, fun a => (runs_nil fun _ => id).wires⟩
  intro depth hdepth locals m hlocals hP hm
  have hargs : EvaluatesAll x (fun _ => True) [.construct (.builtIn .uri) [.text uri]] fun _ => True := by
    apply evaluatesAll_any
    intro e he
    obtain rfl := List.mem_singleton.1 he
    refine (evaluates_construct (evaluatesAll_any fun e he => ?_)).any
    obtain rfl := List.mem_singleton.1 he
    exact evaluates_text uri
  obtain ⟨vs, m', _, hq, hevals⟩ := hargs depth hdepth locals m hlocals hP hm
  exact ⟨m', .staticCall _ "StartLoadFromUri" vs, hq, rfl, rfl, by rw [Expr.eval, hevals]; rfl⟩

theorem builds_keyFrames {o : CompositionObject} {α : Type} {type : TypeRef} {name : String}
    {keyFrames : List α} {duration : Statement} {frame : α → Statement}
    (hkind : ObjectKind.all.find? (·.maker == name) = some o.kind)
    (hname : name ∉ "CreateSurfaceBrush" :: "InsertAtTop" :: linkMethods) (hedges : o.wires = [])
    (hduration : x.plan.setDuration = .ok duration)
    (hframe : ∀ k, ∃ progress value easing, frame k = Plan.insertKeyFrame progress value easing) :
    Builds x method o (Plan.declareResult type (Plan.create name []) :: duration
      :: keyFrames.map frame) := by
  obtain ⟨ticks, _, hduration⟩ := bind_eq_ok.1 hduration
  cases hduration
  refine builds_create hkind hname (by simp) fun a => ?_
  rw [hedges]
  apply Runs.wires
  apply Runs.append (runs_setOnResult (by decide))
  apply runs_all
  intro s hs
  obtain ⟨k, _, rfl⟩ := List.mem_map.1 hs
  obtain ⟨progress, value, easing, hk⟩ := hframe k
  rw [hk]
  exact runs_insertKeyFrame progress value easing

theorem builds_expressionAnimation {expression : String} {references : List NamedReference}
    (htheme : ∀ r ∈ references, r.target = .theme → x.usesTheme = true)
    (h : x.plan.objectStatements i (.expressionAnimation expression references) = .ok body) :
    Builds x method (.expressionAnimation expression references) body := by
  obtain ⟨sets, hsets, h⟩ := bind_eq_ok.1 h
  cases h
  refine builds_create rfl (by decide) (fun e he => ?_) fun a => ?_
  · obtain rfl := List.mem_singleton.1 he
    exact evaluates_text expression
  · have hwires : Wires x method a (HasResult a)
        ((references.filterMap NamedReference.edge?).map fun e => ⟨e, "SetReferenceParameter"⟩) sets
        (HasResult a) := wires_references htheme hsets
    simpa [CompositionObject.wires, CompositionObject.ownEdges, CompositionObject.animators,
      CompositionObject.kind, ObjectKind.linksVia] using hwires

theorem builds_of_objectStatements {o : CompositionObject}
    (hvalid : x.plan.graph.validate = .ok ())
    (ho : x.plan.graph.objects[i]? = some o) (hsurface : ∀ surface, o ≠ .surfaceBrush surface)
    (htheme : o.referencesTheme = true → x.usesTheme = true)
    (h : x.plan.objectStatements i o = .ok body) : Builds x method o body := by
  cases o with
  | containerVisual properties children animators => exact builds_containerVisual h
  | spriteVisual properties brush animators => exact builds_spriteVisual h
  | colorBrush color animators => exact builds_colorBrush h
  | effectBrush effect bound => exact builds_effectBrush hvalid ho h
  | surfaceBrush surface => exact absurd rfl (hsurface surface)
  | imageSurface assetId uri => exact builds_imageSurface h
  | scalarAnimation keyFrames =>
      obtain ⟨duration, hduration, h⟩ := bind_eq_ok.1 h
      cases h
      exact builds_keyFrames rfl (by decide) rfl hduration fun k => ⟨_, _, _, rfl⟩
  | vector2Animation keyFrames =>
      obtain ⟨duration, hduration, h⟩ := bind_eq_ok.1 h
      cases h
      exact builds_keyFrames rfl (by decide) rfl hduration fun k => ⟨_, _, _, rfl⟩
  | expressionAnimation expression references =>
      refine builds_expressionAnimation (fun r hr htarget => htheme ?_) h
      exact List.any_eq_true.2 ⟨r, hr, by simp [htarget]⟩

theorem surfaceStatements_eq_ok {surface : Nat}
    (h : x.plan.objectStatements i (.surfaceBrush surface) = .ok body) :
    ∃ type factory, x.plan.nameOf surface = .ok factory
      ∧ body = [Plan.declareResult type (Plan.create "CreateSurfaceBrush" [.selfCall factory []])] := by
  obtain ⟨e, he, h⟩ := bind_eq_ok.1 h
  obtain ⟨factory, hname, rfl⟩ := Plan.factoryCall_eq_ok he
  cases h
  exact ⟨_, factory, hname, rfl⟩

end Objects

end Scenograph
