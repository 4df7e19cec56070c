import Scenograph.Proofs.Code.Draft
import Scenograph.Source.Print

namespace Scenograph

inductive Node.Inside (nodes : List Node) : List Node → Node → Prop
  | outermost {n : Node} : n ∈ nodes → Inside nodes [] n
  | inner {around inner : List Node} {guard : Option Expr} {n : Node} :
      Inside nodes around (.block guard inner) → n ∈ inner →
      Inside nodes (.block guard inner :: around) n

structure Placed where
  around : List Node
  node : Node
  text : String

def Placed.line (start : Nat) (l : Placed) : Line :=
  ⟨start + l.around.length, l.text⟩

namespace Page

def place (p : Page) (start : Nat) (lines : List Placed) : Page :=
  { p with lines := p.lines ++ lines.map (Placed.line start) }

variable {p : Page} {start : Nat} {around : List Node}

@[simp] theorem level_place (lines : List Placed) : (p.place start lines).level = p.level := rfl

theorem place_nil : p.place start [] = p := by
  simp [place]

theorem place_append (lines more : List Placed) :
    p.place start (lines ++ more) = (p.place start lines).place start more := by
  simp [place]

theorem line_eq_place (h : p.level = start + around.length) (n : Node) (text : String) :
    p.line text = p.place start [⟨around, n, text⟩] := by
  simp [line, place, Placed.line, h]

theorem closeScope_place_openScope (h : p.level = start + around.length) (n : Node)
    (lines : List Placed) :
    (p.openScope.place start lines).closeScope
      = p.place start (⟨around, n, "\x7b"⟩ :: lines ++ [⟨around, n, "\x7d"⟩]) := by
  simp [openScope, closeScope, closeScopeWith, line, indent, unindent, place, Placed.line, h]

theorem append_place_empty (lines : List Placed) :
    p.append (Page.empty.place 0 lines) = p.place p.level lines := by
  simp [append, place, empty, Placed.line, Function.comp_def]

end Page

namespace Language

variable (language : Language)

def ownLines : Node → List String
  | .stmt s => [language.statement s]
  | .block guard _ => guard.toList.map language.guardLine ++ ["\x7b", "\x7d"]

mutual

def placedNode (language : Language) (around : List Node) : Node → List Placed
  | .stmt s => [⟨around, .stmt s, language.statement s⟩]
  | .block guard nodes =>
      (guard.toList.map fun g => ⟨around, .block guard nodes, language.guardLine g⟩)
        ++ (⟨around, .block guard nodes, "\x7b"⟩
          :: placedNodes language (.block guard nodes :: around) nodes
          ++ [⟨around, .block guard nodes, "\x7d"⟩])

def placedNodes (language : Language) (around : List Node) : List Node → List Placed
  | [] => []
  | n :: rest => placedNode language around n ++ placedNodes language around rest

end

def placed (t : Tree) : List Placed :=
  language.placedNodes [] t.nodes

mutual

theorem inside_of_mem_placedNode {nodes : List Node} : (n : Node) → {around : List Node} →
    n.Inside nodes around → ∀ l ∈ language.placedNode around n,
      l.node.Inside nodes l.around ∧ l.text ∈ language.ownLines l.node
  | .stmt s, around, hn, l, hl => by
      rw [placedNode, List.mem_singleton] at hl
      subst hl
      exact ⟨hn, List.mem_singleton_self _⟩
  | .block guard inner, around, hn, l, hl => by
      have hinner := inside_of_mem_placedNodes inner fun m hm => Node.Inside.inner hn hm
      rw [placedNode] at hl
      simp only [List.mem_append, List.mem_map, List.mem_cons, List.not_mem_nil, or_false] at hl
      rcases hl with ⟨g, hg, rfl⟩ | (rfl | hl) | rfl
      · exact ⟨hn, List.mem_append_left _ (List.mem_map_of_mem hg)⟩
      · exact ⟨hn, by simp [ownLines]⟩
      · exact hinner l hl
      · exact ⟨hn, by simp [ownLines]⟩

theorem inside_of_mem_placedNodes {nodes : List Node} : (ms : List Node) → {around : List Node} →
    (∀ m ∈ ms, m.Inside nodes around) → ∀ l ∈ language.placedNodes around ms,
      l.node.Inside nodes l.around ∧ l.text ∈ language.ownLines l.node
  | [], around, _, l, hl => by
      rw [placedNodes] at hl
      cases hl
  | m :: rest, around, hms, l, hl => by
      obtain ⟨hm, hrest⟩ := List.forall_mem_cons.1 hms
      rw [placedNodes, List.mem_append] at hl
      rcases hl with hl | hl
      · exact inside_of_mem_placedNode m hm l hl
      · exact inside_of_mem_placedNodes rest hrest l hl

end

theorem inside_of_mem_placed {t : Tree} {l : Placed} (hl : l ∈ language.placed t) :
    l.node.Inside t.nodes l.around ∧ l.text ∈ language.ownLines l.node :=
  language.inside_of_mem_placedNodes t.nodes (fun _ hn => .outermost hn) l hl

def perform (out : Page) : Step → Page
  | .enter none => out.openScope
  | .enter (some guard) => (out.line (language.guardLine guard)).openScope
  | .leave => out.closeScope
  | .add s => out.line (language.statement s)

def performAll (out : Page) (steps : List Step) : Page :=
  steps.foldl language.perform out

theorem performAll_append (out : Page) (steps rest : List Step) :
    language.performAll out (steps ++ rest)
      = language.performAll (language.performAll out steps) rest :=
  List.foldl_append

theorem writeNode_block (guard : Option Expr) (nodes : List Node) (out : Page) :
    language.writeNode (.block guard nodes) out
      = (language.writeNodes nodes (language.perform out (.enter guard))).closeScope := by
  cases guard with
  | none => rw [writeNode, perform]
  | some guard => rw [writeNode, perform]

mutual

theorem writeNode_eq_performAll : (n : Node) → (out : Page) →
    language.writeNode n out = language.performAll out n.replay
  | .stmt s, out => by
      rw [writeNode, Node.replay]
      rfl
  | .block guard nodes, out => by
      rw [writeNode_block, writeNodes_eq_performAll nodes, Node.replay, ← List.singleton_append,
        performAll_append, performAll_append]
      rfl

theorem writeNodes_eq_performAll : (nodes : List Node) → (out : Page) →
    language.writeNodes nodes out = language.performAll out (Node.replayAll nodes)
  | [], out => by
      rw [writeNodes, Node.replayAll]
      rfl
  | n :: rest, out => by
      rw [writeNodes, writeNode_eq_performAll n, writeNodes_eq_performAll rest, Node.replayAll,
        performAll_append]

end

theorem level_perform_enter (out : Page) (guard : Option Expr) :
    (language.perform out (.enter guard)).level = out.level + 1 := by
  cases guard with
  | none => rfl
  | some guard => rfl

variable {start : Nat} {around : List Node} {out : Page}

theorem perform_enter_eq (hout : out.level = start + around.length) (guard : Option Expr)
    (n : Node) :
    language.perform out (.enter guard)
      = (out.place start (guard.toList.map fun g =>
          ⟨around, n, language.guardLine g⟩)).openScope := by
  cases guard with
  | none => rw [perform, Option.toList_none, List.map_nil, Page.place_nil]
  | some guard => rw [perform, Page.line_eq_place hout n, Option.toList_some, List.map_singleton]

-- the level is split into where the tree starts and the blocks around, which grow on the way in
mutual

theorem writeNode_eq_place : (n : Node) → {around : List Node} → {out : Page} →
    out.level = start + around.length →
    language.writeNode n out = out.place start (language.placedNode around n)
  | .stmt s, around, out, hout => by
      rw [writeNode, placedNode, Page.line_eq_place hout]
  | .block guard nodes, around, out, hout => by
      have hentered : (language.perform out (.enter guard)).level
          = start + (.block guard nodes :: around : List Node).length := by
        rw [level_perform_enter, hout, List.length_cons, Nat.add_assoc]
      rw [writeNode_block, writeNodes_eq_place nodes hentered,
        language.perform_enter_eq hout guard (.block guard nodes), placedNode, Page.place_append]
      exact Page.closeScope_place_openScope (p := out.place start _) hout _ _

theorem writeNodes_eq_place : (nodes : List Node) → {around : List Node} → {out : Page} →
    out.level = start + around.length →
    language.writeNodes nodes out = out.place start (language.placedNodes around nodes)
  | [], around, out, _ => by
      rw [writeNodes, placedNodes, Page.place_nil]
  | n :: rest, around, out, hout => by
      rw [writeNodes, placedNodes, Page.place_append, writeNode_eq_place n hout]
      exact writeNodes_eq_place rest hout

end

theorem writeTree_eq_place (t : Tree) (out : Page) :
    language.writeTree t out = out.place out.level (language.placed t) :=
  language.writeNodes_eq_place t.nodes rfl

variable {d d' : TreeDraft}

theorem level_perform {s : Step} (hlevel : out.level = start + d.depth)
    (hs : (TreeDraft.step s).run d = .ok () d') :
    (language.perform out s).level = start + d'.depth := by
  cases s with
  | enter guard =>
      have hdepth : d'.depth = d.depth + 1 := TreeDraft.depth_step hs
      rw [level_perform_enter, hlevel, hdepth, Nat.add_assoc]
  | leave =>
      -- a scope is open, so nothing is cut off by the subtraction
      have hdepth : d'.depth + 1 = d.depth := TreeDraft.depth_step hs
      have hleft : (language.perform out .leave).level = out.level - 1 := rfl
      omega
  | add s =>
      have hdepth : d'.depth = d.depth := TreeDraft.depth_step hs
      rw [hdepth]
      exact hlevel

theorem level_performAll {steps : List Step} (hlevel : out.level = start + d.depth)
    (hsteps : d.run steps = .ok d') :
    (language.performAll out steps).level = start + d'.depth := by
  induction steps generalizing d out with
  | nil =>
      cases hsteps
      exact hlevel
  | cons s rest ih =>
      obtain ⟨next, hnext, hrest⟩ := bind_eq_ok.1 hsteps
      exact ih (language.level_perform hlevel (Update.attempt_eq_ok.1 hnext)) hrest

end Language

theorem TreeDraft.run_append (d : TreeDraft) (steps rest : List Step) :
    d.run (steps ++ rest) = d.run steps >>= fun d' => d'.run rest := by
  induction steps generalizing d with
  | nil => rfl
  | cons s steps ih =>
      rw [List.cons_append, run, run, bind_assoc]
      exact congrArg ((step s).attempt d >>= ·) (funext ih)

theorem Tree.level_before_leave (language : Language) {t : Tree} {before after : List Step}
    (h : t.replay = before ++ Step.leave :: after) (out : Page) :
    out.level < (language.performAll out before).level := by
  have hrun := TreeDraft.run_tree t
  rw [h, TreeDraft.run_append] at hrun
  obtain ⟨d, hbefore, hrest⟩ := bind_eq_ok.1 hrun
  obtain ⟨d', hleave, -⟩ := bind_eq_ok.1 hrest
  have hlevel : (language.performAll out before).level = out.level + d.depth :=
    language.level_performAll rfl hbefore
  have hdepth : d'.depth + 1 = d.depth := TreeDraft.depth_step (Update.attempt_eq_ok.1 hleave)
  omega

theorem writeTree_inPlace (language : Language) (t : Tree) (out : Page) :
    language.writeTree t out = out.append (language.treePage t)
      ∧ (language.writeTree t out).level = out.level
      ∧ (language.writeTree t out).lines
          = out.lines ++ (language.placed t).map (Placed.line out.level)
      ∧ (∀ l ∈ language.placed t,
          l.node.Inside t.nodes l.around ∧ l.text ∈ language.ownLines l.node)
      ∧ language.writeTree t out = language.performAll out t.replay
      ∧ ∀ before after : List Step, t.replay = before ++ Step.leave :: after →
          out.level < (language.performAll out before).level := by
  have hplace := language.writeTree_eq_place t out
  have hpage : language.treePage t = Page.empty.place 0 (language.placed t) :=
    language.writeTree_eq_place t .empty
  refine ⟨?_, ?_, ?_, fun l hl => language.inside_of_mem_placed hl,
    language.writeNodes_eq_performAll t.nodes out,
    fun before after h => Tree.level_before_leave language h out⟩
  · rw [hplace, hpage, Page.append_place_empty]
  · rw [hplace, Page.level_place]
  · rw [hplace, Page.place]

def guardedReturn : Node :=
  .block (some (.notNull (.var "_brush"))) [.stmt (.ret (some (.var "_brush"))), .block none []]

def earlyReturn : Tree where
  nodes := [guardedReturn, .stmt (.ret none)]

def earlySteps : List Step :=
  [.enter (some (.notNull (.var "_brush"))), .add (.ret (some (.var "_brush"))), .enter none]

theorem writeTree_inPlace_earlyReturn :
    (Language.csharp.writeTree earlyReturn (.startingAt 2)
        = (Page.startingAt 2).append (Language.csharp.treePage earlyReturn)
      ∧ (Language.csharp.writeTree earlyReturn (.startingAt 2)).lines
          = [⟨2, "if (_brush != null)"⟩, ⟨2, "\x7b"⟩, ⟨3, "return _brush;"⟩, ⟨3, "\x7b"⟩,
              ⟨3, "\x7d"⟩, ⟨2, "\x7d"⟩, ⟨2, "return;"⟩])
      ∧ (⟨[guardedReturn], .block none [], "\x7b"⟩ ∈ Language.csharp.placed earlyReturn
        ∧ Node.Inside earlyReturn.nodes [guardedReturn] (.block none []))
      ∧ earlyReturn.replay = earlySteps ++ Step.leave :: [Step.leave, Step.add (.ret none)]
      ∧ 0 < (Language.csharp.performAll .empty earlySteps).level := by
  obtain ⟨happend, _, hlines, _⟩ := writeTree_inPlace .csharp earlyReturn (.startingAt 2)
  obtain ⟨_, _, _, hinside, _, hleave⟩ := writeTree_inPlace .csharp earlyReturn .empty
  have hmem : ⟨[guardedReturn], .block none [], "\x7b"⟩ ∈ Language.csharp.placed earlyReturn :=
    List.mem_of_getElem? (i := 3) rfl
  exact ⟨⟨happend, hlines⟩, ⟨hmem, (hinside _ hmem).1⟩, rfl, hleave _ _ rfl⟩

end Scenograph
