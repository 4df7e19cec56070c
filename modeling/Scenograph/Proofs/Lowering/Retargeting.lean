import Scenograph.Proofs.Lowering.Bodies
import Scenograph.Proofs.Lowering.Members
import Scenograph.Proofs.Lowering.Totality

namespace Scenograph

def Language.appendName (l : Language) : String :=
  if l = .csharp then "Add" else "Append"

theorem Language.listAdd_eq (l : Language) : l.listAdd = l.appendName := by
  cases l <;> rfl

def Statement.appendAs (method : String) : Statement → Statement
  | .eval (.call (.property (.var holder) name) other args) =>
      .eval (.call (.property (.var holder) name) (if name = "Sources" then method else other) args)
  | s => s

namespace Node

mutual

def appendAs (method : String) : Node → Node
  | .stmt s => .stmt (s.appendAs method)
  | .block guard nodes => .block guard (allAppendAs method nodes)

def allAppendAs (method : String) : List Node → List Node
  | [] => []
  | n :: rest => appendAs method n :: allAppendAs method rest

end

theorem allAppendAs_append (method : String) (ns rest : List Node) :
    allAppendAs method (ns ++ rest) = allAppendAs method ns ++ allAppendAs method rest := by
  induction ns with
  | nil => rfl
  | cons n ns ih => simp [allAppendAs, ih]

theorem allAppendAs_stmts (method : String) (ss : List Statement) :
    allAppendAs method (ss.map .stmt) = (ss.map (Statement.appendAs method)).map .stmt := by
  induction ss with
  | nil => rfl
  | cons s ss ih => simp [allAppendAs, appendAs, ih]

end Node

def Method.appendAs (method : String) (m : Method) : Method :=
  { m with body := { m.body with nodes := Node.allAppendAs method m.body.nodes } }

def ClassUnit.appendAs (method : String) (u : ClassUnit) : ClassUnit :=
  { u with methods := u.methods.map (Method.appendAs method) }

def Target.inLanguage (t : Target) (l : Language) : Target :=
  { t with language := l }

namespace Plan

def inLanguage (p : Plan) (l : Language) : Plan :=
  { p with target := p.target.inLanguage l }

section Statements

variable {p : Plan} {l : Language} {i : Nat} {body : List Statement}

theorem SetsUp.appendAs {s : Statement} (h : p.SetsUp s) :
    s.appendAs p.target.language.listAdd = s := by
  cases h with
  | declare | setProperty | call => rfl
  | append holder source => simp [Statement.appendAs]

theorem map_appendAs_objectStatements {o : CompositionObject}
    (h : p.objectStatements i o = .ok body) :
    body.map (Statement.appendAs p.target.language.listAdd) = body := by
  have hself : ∀ s ∈ body, s.appendAs p.target.language.listAdd = id s :=
    fun s hs => (setsUp_objectStatements h s hs).appendAs
  rw [List.map_congr_left hself, List.map_id]

theorem effectSettings_inLanguage (method holder : String) (effect : Effect) :
    ((p.inLanguage l).effectSettings holder effect).map (Statement.appendAs method)
      = (p.effectSettings holder effect).map (Statement.appendAs method) := by
  cases effect with
  | gaussianBlur => rfl
  | composite mode sources =>
      simp only [effectSettings, List.map_cons, List.map_map]
      rfl

theorem effectBrush_inLanguage {type : TypeRef} (method : String)
    (h : p.effectBrush i type = .ok body) :
    ∃ body', (p.inLanguage l).effectBrush i type = .ok body'
      ∧ body'.map (Statement.appendAs method) = body.map (Statement.appendAs method) := by
  rw [effectBrush] at h
  obtain ⟨⟨effect, sources⟩, hsources, h⟩ := bind_eq_ok.1 h
  obtain ⟨links, hlinks, h⟩ := bind_eq_ok.1 h
  cases h
  refine ⟨_, bind_eq_ok.2 ⟨(effect, sources), hsources, bind_eq_ok.2 ⟨links, hlinks, rfl⟩⟩, ?_⟩
  simp only [List.map_cons, List.map_append, effectSettings_inLanguage]
  rfl

theorem objectStatements_agree {o : CompositionObject} (method : String)
    (h : p.objectStatements i o = .ok body) :
    ∃ body', (p.inLanguage l).objectStatements i o = .ok body'
      ∧ body'.map (Statement.appendAs method) = body.map (Statement.appendAs method) := by
  cases o with
  | effectBrush effect sources => exact effectBrush_inLanguage method h
  | _ => exact ⟨body, h, rfl⟩

theorem objectStatements_inLanguage {o : CompositionObject} (h : p.objectStatements i o = .ok body) :
    (p.inLanguage l).objectStatements i o = .ok (body.map (Statement.appendAs l.listAdd)) := by
  obtain ⟨body', hbody', heq⟩ := objectStatements_agree l.listAdd h
  rw [hbody', ← heq]
  exact congrArg _ (map_appendAs_objectStatements hbody').symm

theorem allAppendAs_factoryNodes (method : String) (shared : Bool) (name : String)
    (body : List Statement) :
    Node.allAppendAs method (factoryNodes shared name body)
      = factoryNodes shared name (body.map (Statement.appendAs method)) := by
  simp only [factoryNodes, Node.allAppendAs_append, Node.allAppendAs_stmts]
  cases shared <;> rfl

theorem factory_inLanguage {m : Method} (h : p.factory i = .ok m) :
    (p.inLanguage l).factory i = .ok (m.appendAs l.listAdd) := by
  obtain ⟨o, name, body, ho, hname, hbody, rfl⟩ := factory_eq_ok h
  have hbody' := objectStatements_inLanguage (l := l) hbody
  refine bind_eq_ok.2 ⟨o, Graph.get_eq_ok.2 ho, bind_eq_ok.2 ⟨name, hname,
    bind_eq_ok.2 ⟨_, hbody', ?_⟩⟩⟩
  rw [method_eq_ok (run_factorySteps _ _ _), ← allAppendAs_factoryNodes]
  rfl

end Statements

theorem ofGraph_inLanguage {t : Target} {g : Graph} {p : Plan} (h : ofGraph t g = .ok p)
    (l : Language) : ofGraph (t.inLanguage l) g = .ok (p.inLanguage l) := by
  rw [ofGraph] at h
  obtain ⟨_, hvalid, h⟩ := bind_eq_ok.1 h
  obtain ⟨order, horder, h⟩ := bind_eq_ok.1 h
  obtain ⟨names, hnames, h⟩ := bind_eq_ok.1 h
  obtain ⟨degrees, hdegrees, h⟩ := bind_eq_ok.1 h
  cases h
  simp only [ofGraph, hvalid, horder, hnames, hdegrees, ok_bind, pure_eq_ok]
  rfl

theorem appendAs_ensureTheme (p : Plan) (method : String) :
    p.ensureThemeMethod.appendAs method = p.ensureThemeMethod := by
  have hseeds : (p.graph.bindings.values.map seedStatement).map (Statement.appendAs method)
      = p.graph.bindings.values.map seedStatement := by
    rw [List.map_map]
    rfl
  simp only [Method.appendAs, ensureThemeMethod, ordinary, Node.allAppendAs_append,
    Node.allAppendAs_stmts, hseeds]
  rfl

theorem appendAs_themeMethods (p : Plan) (usesTheme : Bool) (method : String) :
    (p.themeMethodList usesTheme).map (Method.appendAs method) = p.themeMethodList usesTheme := by
  rw [themeMethodList]
  split
  · rw [List.map_cons, appendAs_ensureTheme]
    split <;> rfl
  · rfl

end Plan

namespace Parts

variable {x : Parts} {g : Graph} {t : Target}

def inLanguage (x : Parts) (l : Language) : Parts :=
  { x with
    plan := x.plan.inLanguage l
    factories := x.factories.map (Method.appendAs l.listAdd) }

theorem unit_inLanguage (x : Parts) (l : Language) :
    (x.inLanguage l).unit = x.unit.appendAs l.listAdd := by
  have htheme := x.plan.appendAs_themeMethods x.usesTheme l.listAdd
  simp only [ClassUnit.appendAs, unit, List.map_cons, List.map_append, htheme]
  rfl

theorem Of.inLanguage (hx : x.Of g t) {l : Language}
    (hbindings : (x.plan.inLanguage l).checkBindings = .ok ()) :
    (x.inLanguage l).Of g (t.inLanguage l) where
  plan := Plan.ofGraph_inLanguage hx.plan l
  bindings := hbindings
  theme := hx.theme
  root := hx.root
  rootFactory := hx.rootFactory
  ticks := hx.ticks
  factories := List.forall₂_map_right_iff.2 (hx.factories.imp fun _ _ => Plan.factory_inLanguage)
  sharedFields := hx.sharedFields
  assets := hx.assets

theorem Of.lower_inLanguage (hx : x.Of g t) (l : Language) :
    g.lower (t.inLanguage l) = do
      (x.plan.inLanguage l).checkBindings
      return x.unit.appendAs l.listAdd := by
  cases hcheck : (x.plan.inLanguage l).checkBindings with
  | error fault => exact Graph.lower_of_flawed (Plan.ofGraph_inLanguage hx.plan l) hcheck
  | ok _ =>
      rw [(hx.inLanguage hcheck).lower_eq, unit_inLanguage]
      rfl

theorem Of.appendAs_own (hx : x.Of g t) : x.unit.appendAs t.language.listAdd = x.unit := by
  have hplan : x.plan.inLanguage t.language = x.plan := by
    rw [← hx.planned.target]
    rfl
  have hown := hx.inLanguage (l := t.language) (hplan ▸ hx.bindings)
  rw [← x.unit_inLanguage]
  exact Except.ok.inj (hown.lower_eq.symm.trans hx.lower_eq)

end Parts

namespace Plan

variable {p : Plan} {l : Language} (hp : p.checkBindings = .ok ())

include hp

theorem checkBindings_inLanguage : (p.inLanguage l).checkBindings = .ok ()
    ↔ ∀ b ∈ p.graph.bindings.values, l.isReserved b.name = false := by
  rw [checkBindings_eq_ok] at hp ⊢
  exact ⟨fun h b hb => (h b hb).2, fun h b hb => ⟨(hp b hb).1, h b hb⟩⟩

theorem keyword_of_inLanguage {fault : Fault} (h : (p.inLanguage l).checkBindings = .error fault) :
    ∃ b ∈ p.graph.bindings.values, l.isReserved b.name = true
      ∧ fault = .structural (.binding b.name) (.bindingIsKeyword l) := by
  obtain ⟨b, hb, flaw, rfl, hflaw⟩ := exists_bindingFlaw h
  have hclash : (p.inLanguage l).clashes b.name = false := (checkBindings_eq_ok.1 hp b hb).1
  obtain ⟨hreserved, rfl⟩ := (bindingFlaw?_of_not_clashes hclash).1 hflaw
  exact ⟨b, hb, hreserved, rfl⟩

end Plan

structure Retargeted (g : Graph) (t : Target) (u : ClassUnit) (l : Language) : Prop where
  appends : u.appendAs t.language.appendName = u
  ok_iff : ∀ u', g.lower (t.inLanguage l) = .ok u' ↔
    (∀ b ∈ g.bindings.values, l.isReserved b.name = false) ∧ u' = u.appendAs l.appendName
  keyword : ∀ fault, g.lower (t.inLanguage l) = .error fault →
    ∃ b ∈ g.bindings.values, l.isReserved b.name = true
      ∧ fault = .structural (.binding b.name) (.bindingIsKeyword l)

theorem lower_retargeted {g : Graph} {t : Target} {u : ClassUnit} (hu : g.lower t = .ok u)
    (l : Language) : Retargeted g t u l := by
  obtain ⟨x, hx, rfl⟩ := Graph.lower_parts hu
  have hbindings := Plan.checkBindings_inLanguage (l := l) hx.bindings
  rw [hx.planned.graph] at hbindings
  refine ⟨?_, fun u' => ?_, fun fault h => ?_⟩
  · rw [← Language.listAdd_eq]
    exact hx.appendAs_own
  · rw [← Language.listAdd_eq, ← hbindings, hx.lower_inLanguage l]
    constructor
    · intro h
      obtain ⟨_, hcheck, h⟩ := bind_eq_ok.1 h
      exact ⟨hcheck, (Except.ok.inj h).symm⟩
    · rintro ⟨hcheck, rfl⟩
      rw [hcheck]
      rfl
  · rw [hx.lower_inLanguage l] at h
    cases hcheck : (x.plan.inLanguage l).checkBindings with
    | error other =>
        rw [hcheck] at h
        cases h
        exact hx.planned.graph ▸ Plan.keyword_of_inLanguage hx.bindings hcheck
    | ok _ =>
        rw [hcheck] at h
        cases h

def gcnewBinding : Binding :=
  ⟨"gcnew", "gcnew", .scalar, .scalar, .scalar 0⟩

def compositeScene : Graph where
  objects := [.spriteVisual {} (some 1) [],
    .effectBrush (.composite .sourceOver ["a", "b"]) [⟨"a", 2⟩, ⟨"b", 2⟩],
    .colorBrush ⟨1, 0, 0, 1⟩ []]
  root := some 0
  bindings := ⟨[("gcnew", gcnewBinding)]⟩

def compositeTarget : Target where
  language := .csharp
  size := ⟨1, 1⟩
  nanoseconds := 100

def compositePlan : Plan :=
  ⟨compositeTarget, compositeScene, [0, 1, 2],
    [(0, "SpriteVisual_0"), (1, "CompositionEffectBrush_0"), (2, "CompositionColorBrush_0")], [2]⟩

def compositeParts : Parts where
  plan := compositePlan
  usesTheme := true
  root := 0
  rootFactory := "SpriteVisual_0"
  ticks := 1
  factories := [0, 1, 2].filterMap fun i => (compositePlan.factory i).toOption
  sharedFields := [⟨"_compositionColorBrush_0", compositePlan.objectType .colorBrush, none⟩]
  assets := []

theorem preorder_compositeScene : compositeScene.preorder = .ok compositePlan.order := by
  cbv

theorem compositeParts_of : compositeParts.Of compositeScene compositeTarget where
  plan := by
    have hvalid : compositeScene.validate = .ok () := Graph.validate_of_checks rfl rfl (by cbv)
    exact Plan.ofGraph_eq hvalid preorder_compositeScene (by decide) rfl
  bindings := by decide +kernel
  theme := rfl
  root := rfl
  rootFactory := rfl
  ticks := rfl
  factories := .cons rfl (.cons rfl (.cons rfl .nil))
  sharedFields := .cons rfl .nil
  assets := by
    rw [Graph.referencedAssets, preorder_compositeScene]
    rfl

def appendSource (method source : String) : Statement :=
  .eval (.call (.property (.var "compositeEffect") "Sources") method
    [compositePlan.sourceParameter source])

theorem lower_retargeted_compositeScene :
    ∃ u m, compositeScene.lower compositeTarget = .ok u ∧ m ∈ u.methods
      ∧ m.name = "CompositionEffectBrush_0" ∧ appendSource "Add" "b" ∈ m.body.statements
      ∧ Retargeted compositeScene compositeTarget u .cppWinRT
      ∧ compositeScene.lower (compositeTarget.inLanguage .cppWinRT) = .ok (u.appendAs "Append")
      ∧ m.appendAs "Append" ∈ (u.appendAs "Append").methods
      ∧ appendSource "Append" "b" ∈ (m.appendAs "Append").body.statements
      ∧ Retargeted compositeScene compositeTarget u .cppCX
      ∧ ∀ u', compositeScene.lower (compositeTarget.inLanguage .cppCX) ≠ .ok u' := by
  have hu := compositeParts_of.lower_eq
  obtain ⟨m, hm⟩ : ∃ m, compositePlan.factory 1 = .ok m := ⟨_, rfl⟩
  have hmem := compositeParts_of.factory_mem (List.mem_cons_of_mem _ (List.mem_cons_self ..)) hm
  cases hm
  have hplain : ∀ b ∈ compositeScene.bindings.values, Language.cppWinRT.isReserved b.name = false :=
    List.forall_mem_singleton.2 (by decide +kernel)
  have hword : Language.cppCX.isReserved gcnewBinding.name = true := by decide +kernel
  have hwinRT := lower_retargeted hu .cppWinRT
  have hcx := lower_retargeted hu .cppCX
  refine ⟨_, _, hu, hmem, rfl, ?_, hwinRT, (hwinRT.ok_iff _).2 ⟨hplain, rfl⟩,
    List.mem_map_of_mem hmem, ?_, hcx, fun u' h => ?_⟩
  · exact .tail _ (.tail _ (.tail _ (.head _)))
  · exact .tail _ (.tail _ (.tail _ (.head _)))
  · have hfree := ((hcx.ok_iff u').1 h).1 gcnewBinding (List.mem_singleton_self _)
    exact Bool.false_ne_true (hfree.symm.trans hword)

end Scenograph
