import Mathlib.Algebra.Order.Ring.Nat
import Scenograph.Code.Draft
import Scenograph.Proofs.Outcome

namespace Scenograph

namespace Step

def isEnter : Step → Bool
  | .enter _ => true
  | _ => false

def isLeave : Step → Bool
  | .leave => true
  | _ => false

def added? : Step → Option Statement
  | .add s => some s
  | _ => none

end Step

namespace Node

mutual

def replay : Node → List Step
  | .stmt s => [.add s]
  | .block guard nodes => .enter guard :: (replayAll nodes ++ [.leave])

def replayAll : List Node → List Step
  | [] => []
  | n :: rest => replay n ++ replayAll rest

end

theorem replayAll_append (nodes rest : List Node) :
    replayAll (nodes ++ rest) = replayAll nodes ++ replayAll rest := by
  induction nodes with
  | nil => rfl
  | cons n nodes ih => simp [replayAll, ih]

mutual

theorem added_replay (n : Node) : n.replay.filterMap Step.added? = n.statements := by
  cases n with
  | stmt s => rfl
  | block guard nodes =>
      have hnodes := added_replayAll nodes
      rw [replay, statements, List.filterMap_cons_none rfl, List.filterMap_append, hnodes]
      exact List.append_nil _

theorem added_replayAll (nodes : List Node) :
    (replayAll nodes).filterMap Step.added? = allStatements nodes := by
  cases nodes with
  | nil => rfl
  | cons n rest =>
      simp [replayAll, allStatements, added_replay n, added_replayAll rest]

end

end Node

def Tree.replay (t : Tree) : List Step :=
  Node.replayAll t.nodes

def Scope.replay (s : Scope) : List Step :=
  .enter s.guard :: Node.replayAll s.nodes

namespace TreeDraft

def calls (d : TreeDraft) (steps : List Step) : TreeDraft :=
  steps.foldl (fun d s => (step s).after d) d

def performed (d : TreeDraft) : List Step → List Step
  | [] => []
  | s :: rest =>
      match (step s).run d with
      | .ok _ d' => s :: performed d' rest
      | .error _ d' => performed d' rest

def peak (d : TreeDraft) : List Step → Nat
  | [] => d.depth
  | s :: rest => max d.depth (peak ((step s).after d) rest)

def replay (d : TreeDraft) : List Step :=
  Node.replayAll d.root ++ d.scopes.reverse.flatMap Scope.replay

variable {d d' : TreeDraft}

theorem calls_cons (s : Step) (rest : List Step) :
    d.calls (s :: rest) = ((step s).after d).calls rest := rfl

theorem run_enter (guard : Option Expr) : (step (.enter guard)).run d = .ok () (d.enter guard) := rfl

theorem run_add (s : Statement) : (step (.add s)).run d = .ok () (d.add s) := rfl

theorem run_leave_eq_ok : (step .leave).run d = .ok () d' ↔
    ∃ s outer, d.scopes = s :: outer
      ∧ d' = { d with scopes := outer }.append (.block s.guard s.nodes) := by
  obtain ⟨root, scopes⟩ := d
  cases scopes with
  | nil =>
      constructor
      · intro h
        cases h
      · rintro ⟨s, outer, hs, -⟩
        cases hs
  | cons s outer =>
      constructor
      · intro h
        exact ⟨s, outer, rfl, (EStateM.Result.ok.inj h).2.symm⟩
      · rintro ⟨_, _, hs, rfl⟩
        cases hs
        rfl

/-- Only a close at the root fails, and it changes nothing. -/
theorem run_step_eq_error {s : Step} {misuse : Misuse} : (step s).run d = .error misuse d' ↔
    s = .leave ∧ d.depth = 0 ∧ misuse = .closedRoot ∧ d' = d := by
  cases s with
  | enter guard => simp [run_enter]
  | add s => simp [run_add]
  | leave =>
      obtain ⟨root, scopes⟩ := d
      cases scopes with
      | nil =>
          have hrun : (step .leave).run ⟨root, []⟩ = .error .closedRoot ⟨root, []⟩ := rfl
          simp [hrun, depth, eq_comm]
      | cons s outer =>
          have hrun := (run_leave_eq_ok (d := ⟨root, s :: outer⟩)).2 ⟨s, outer, rfl, rfl⟩
          simp [hrun, depth]

theorem performed_of_ok {s : Step} {rest : List Step} (h : (step s).run d = .ok () d') :
    d.performed (s :: rest) = s :: d'.performed rest := by
  rw [performed, h]

theorem performed_of_error {s : Step} {rest : List Step} {misuse : Misuse}
    (h : (step s).run d = .error misuse d') : d.performed (s :: rest) = d'.performed rest := by
  rw [performed, h]

@[simp] theorem depth_append (n : Node) : (d.append n).depth = d.depth := by
  cases hs : d.scopes <;> simp [append, depth, hs]

@[simp] theorem depth_enter (guard : Option Expr) : (d.enter guard).depth = d.depth + 1 := rfl

theorem replay_append (n : Node) : (d.append n).replay = d.replay ++ n.replay := by
  cases hs : d.scopes with
  | nil => simp [append, replay, hs, Node.replayAll_append, Node.replayAll]
  | cons s outer =>
      simp [append, replay, hs, Scope.replay, Node.replayAll_append, Node.replayAll]

theorem replay_step {s : Step} (h : (step s).run d = .ok () d') :
    d'.replay = d.replay ++ [s] := by
  cases s with
  | enter guard =>
      cases h
      simp [enter, replay, Scope.replay, Node.replayAll]
  | add s =>
      cases h
      exact replay_append _
  | leave =>
      obtain ⟨s, outer, hs, rfl⟩ := run_leave_eq_ok.1 h
      rw [replay_append]
      simp [replay, hs, Scope.replay, Node.replay]

theorem replay_calls (steps : List Step) :
    (d.calls steps).replay = d.replay ++ d.performed steps := by
  induction steps generalizing d with
  | nil => simp [calls, performed]
  | cons s rest ih =>
      cases hs : (step s).run d with
      | error misuse d' =>
          obtain ⟨-, -, -, rfl⟩ := run_step_eq_error.1 hs
          rw [performed_of_error hs, calls_cons, Update.after_of_error hs, ih]
      | ok _ d' =>
          rw [performed_of_ok hs, calls_cons, Update.after_of_ok hs, ih, replay_step hs,
            List.append_assoc, List.singleton_append]

theorem depth_step {s : Step} (h : (step s).run d = .ok () d') :
    d'.depth + [s].countP Step.isLeave = d.depth + [s].countP Step.isEnter := by
  cases s with
  | enter guard =>
      cases h
      rfl
  | add s =>
      cases h
      exact depth_append _
  | leave =>
      obtain ⟨s, outer, hs, rfl⟩ := run_leave_eq_ok.1 h
      rw [depth_append]
      simp [depth, hs, Step.isLeave, Step.isEnter]

theorem depth_calls (steps : List Step) :
    (d.calls steps).depth + (d.performed steps).countP Step.isLeave
      = d.depth + steps.countP Step.isEnter := by
  induction steps generalizing d with
  | nil => simp [calls, performed]
  | cons s rest ih =>
      rw [calls_cons, ← List.singleton_append, List.countP_append]
      cases hs : (step s).run d with
      | error misuse d' =>
          obtain ⟨rfl, -, -, rfl⟩ := run_step_eq_error.1 hs
          rw [List.singleton_append, performed_of_error hs, Update.after_of_error hs, ih]
          simp [Step.isEnter]
      | ok _ d' =>
          have hstep := depth_step hs
          have hrest := ih (d := d')
          rw [List.singleton_append, performed_of_ok hs, Update.after_of_ok hs,
            ← List.singleton_append, List.countP_append]
          omega

theorem added_performed (steps : List Step) :
    (d.performed steps).filterMap Step.added? = steps.filterMap Step.added? := by
  induction steps generalizing d with
  | nil => rfl
  | cons s rest ih =>
      cases hs : (step s).run d with
      | error misuse d' =>
          obtain ⟨rfl, -, -, rfl⟩ := run_step_eq_error.1 hs
          rw [performed_of_error hs, ih, List.filterMap_cons_none rfl]
      | ok _ d' => rw [performed_of_ok hs, List.filterMap_cons, List.filterMap_cons, ih]

theorem depth_le_peak (steps : List Step) : d.depth ≤ d.peak steps := by
  cases steps with
  | nil => exact Nat.le_refl _
  | cons s rest => exact Nat.le_max_left ..

theorem peak_performed (steps : List Step) : d.peak (d.performed steps) = d.peak steps := by
  induction steps generalizing d with
  | nil => rfl
  | cons s rest ih =>
      cases hs : (step s).run d with
      | error misuse d' =>
          obtain ⟨-, -, -, rfl⟩ := run_step_eq_error.1 hs
          rw [performed_of_error hs, ih, peak, Update.after_of_error hs,
            Nat.max_eq_right (depth_le_peak rest)]
      | ok _ d' => rw [performed_of_ok hs, peak, peak, Update.after_of_ok hs, ih]

def appendAll (d : TreeDraft) (nodes : List Node) : TreeDraft :=
  nodes.foldl append d

theorem appendAll_cons (n : Node) (nodes : List Node) :
    d.appendAll (n :: nodes) = (d.append n).appendAll nodes := rfl

theorem appendAll_root (root nodes : List Node) :
    appendAll ⟨root, []⟩ nodes = ⟨root ++ nodes, []⟩ := by
  induction nodes generalizing root with
  | nil => simp [appendAll]
  | cons n nodes ih =>
      rw [appendAll_cons]
      simp [append, ih]

theorem appendAll_scope (root : List Node) (guard : Option Expr) (inner nodes : List Node)
    (outer : List Scope) :
    appendAll ⟨root, ⟨guard, inner⟩ :: outer⟩ nodes = ⟨root, ⟨guard, inner ++ nodes⟩ :: outer⟩ := by
  induction nodes generalizing inner with
  | nil => simp [appendAll]
  | cons n nodes ih =>
      rw [appendAll_cons]
      simp [append, ih]

theorem leave_appendAll_enter (guard : Option Expr) (nodes : List Node) :
    (step .leave).run ((d.enter guard).appendAll nodes)
      = .ok () (d.append (.block guard nodes)) := by
  rw [enter, appendAll_scope]
  rfl

@[simp] theorem depth_appendAll (nodes : List Node) : (d.appendAll nodes).depth = d.depth := by
  induction nodes generalizing d with
  | nil => rfl
  | cons n nodes ih => rw [appendAll_cons, ih, depth_append]

theorem run_cons_of_ok {s : Step} {rest : List Step} (h : (step s).run d = .ok () d') :
    d.run (s :: rest) = d'.run rest := by
  rw [run, Update.attempt_eq_ok.2 h, ok_bind]

mutual

theorem run_replay (d : TreeDraft) (n : Node) (rest : List Step) :
    d.run (n.replay ++ rest) = (d.append n).run rest := by
  cases n with
  | stmt s => rfl
  | block guard nodes =>
      have hleave := leave_appendAll_enter (d := d) guard nodes
      rw [Node.replay, List.cons_append, List.append_assoc, run_cons_of_ok (run_enter guard),
        run_replayAll (d.enter guard) nodes, List.singleton_append, run_cons_of_ok hleave]

theorem run_replayAll (d : TreeDraft) (nodes : List Node) (rest : List Step) :
    d.run (Node.replayAll nodes ++ rest) = (d.appendAll nodes).run rest := by
  cases nodes with
  | nil => rfl
  | cons n nodes =>
      rw [Node.replayAll, List.append_assoc, run_replay d n, run_replayAll (d.append n) nodes]
      rfl

end

mutual

theorem peak_replay (d : TreeDraft) (n : Node) (rest : List Step) :
    d.peak (n.replay ++ rest) = max (d.depth + n.depth) ((d.append n).peak rest) := by
  cases n with
  | stmt s => rfl
  | block guard nodes =>
      have hleave := Update.after_of_ok (leave_appendAll_enter (d := d) guard nodes)
      have hpeak := depth_le_peak (d := d.append (.block guard nodes)) rest
      rw [Node.replay, List.cons_append, List.append_assoc, peak,
        Update.after_of_ok (run_enter guard), peak_replayAll (d.enter guard) nodes,
        List.singleton_append, peak, hleave, Node.depth]
      simp only [depth_appendAll, depth_enter, depth_append] at hpeak ⊢
      omega

theorem peak_replayAll (d : TreeDraft) (nodes : List Node) (rest : List Step) :
    d.peak (Node.replayAll nodes ++ rest)
      = max (d.depth + Node.maxDepth nodes) ((d.appendAll nodes).peak rest) := by
  cases nodes with
  | nil =>
      have hpeak := depth_le_peak (d := d) rest
      exact (Nat.max_eq_right hpeak).symm
  | cons n nodes =>
      rw [Node.replayAll, List.append_assoc, peak_replay d n, peak_replayAll (d.append n) nodes,
        Node.maxDepth, depth_append, appendAll_cons]
      omega

end

theorem run_tree (t : Tree) : TreeDraft.empty.run t.replay = .ok ⟨t.nodes, []⟩ := by
  have hrun := run_replayAll empty t.nodes []
  rw [List.append_nil] at hrun
  rw [Tree.replay, hrun, empty, appendAll_root]
  rfl

theorem calls_of_run {steps : List Step} (h : d.run steps = .ok d') :
    d.calls steps = d' ∧ d.performed steps = steps := by
  induction steps generalizing d with
  | nil =>
      cases h
      exact ⟨rfl, rfl⟩
  | cons s rest ih =>
      obtain ⟨next, hnext, hrest⟩ := bind_eq_ok.1 h
      have hrun := Update.attempt_eq_ok.1 hnext
      obtain ⟨hcalls, hperformed⟩ := ih hrest
      rw [calls_cons, Update.after_of_ok hrun, performed_of_ok hrun, hcalls, hperformed]
      exact ⟨rfl, rfl⟩

theorem finish_eq_ok {t : Tree} :
    d.finish = .ok t ↔ d.depth = 0 ∧ t.guard = none ∧ t.nodes = d.root := by
  cases hs : d.scopes with
  | cons s outer => simp [finish, depth, hs]
  | nil =>
      obtain ⟨guard, nodes⟩ := t
      simp [finish, depth, hs, eq_comm]

structure Mirrors (steps : List Step) (t : Tree) : Prop where
  unguarded : t.guard = none
  replay : t.replay = empty.performed steps
  unique : ∀ t' : Tree, t'.guard = none → t'.replay = empty.performed steps → t' = t
  statements : t.statements = steps.filterMap Step.added?
  depth : t.depth = empty.peak steps

theorem replay_injective {t t' : Tree} (ht : t.guard = none) (ht' : t'.guard = none)
    (h : t.replay = t'.replay) : t = t' := by
  obtain ⟨guard, nodes⟩ := t
  obtain ⟨guard', nodes'⟩ := t'
  have hrun := run_tree ⟨guard, nodes⟩
  rw [h, run_tree] at hrun
  cases hrun
  cases ht
  cases ht'
  rfl

theorem mirrors_of_finish {steps : List Step} {t : Tree}
    (h : (empty.calls steps).finish = .ok t) : Mirrors steps t := by
  obtain ⟨hdepth, hguard, hnodes⟩ := finish_eq_ok.1 h
  have hreplay : t.replay = empty.performed steps := by
    have hcalls := replay_calls (d := empty) steps
    have hscopes : (empty.calls steps).scopes = [] := List.eq_nil_of_length_eq_zero hdepth
    rw [replay, hscopes] at hcalls
    simpa [Tree.replay, hnodes, empty, replay, Node.replayAll] using hcalls
  refine ⟨hguard, hreplay, fun t' ht' hreplay' => ?_, ?_, ?_⟩
  · exact replay_injective ht' hguard (hreplay'.trans hreplay.symm)
  · calc t.statements = t.replay.filterMap Step.added? := (Node.added_replayAll t.nodes).symm
      _ = steps.filterMap Step.added? := by rw [hreplay, added_performed]
  · calc t.depth = empty.peak t.replay := by
          have hpeak := peak_replayAll empty t.nodes []
          simpa [Tree.replay, Tree.depth, peak, depth, empty, appendAll_root] using hpeak.symm
      _ = empty.peak steps := by rw [hreplay, peak_performed]

end TreeDraft

theorem draft_mirrors_calls :
    (∀ steps : List Step,
      (∀ misuse d, (TreeDraft.step .leave).run (TreeDraft.empty.calls steps) = .error misuse d ↔
          (TreeDraft.empty.calls steps).depth = 0 ∧ misuse = .closedRoot
            ∧ d = TreeDraft.empty.calls steps)
        ∧ (TreeDraft.empty.calls steps).depth
            + (TreeDraft.empty.performed steps).countP Step.isLeave = steps.countP Step.isEnter
        ∧ ((∃ t, (TreeDraft.empty.calls steps).finish = .ok t) ↔
            (TreeDraft.empty.calls steps).depth = 0)
        ∧ ∀ t, (TreeDraft.empty.calls steps).finish = .ok t → TreeDraft.Mirrors steps t)
      ∧ ∀ t : Tree, t.guard = none →
          TreeDraft.empty.performed t.replay = t.replay
            ∧ (TreeDraft.empty.calls t.replay).finish = .ok t := by
  refine ⟨fun steps => ⟨fun misuse d => ?_, ?_, ?_, fun t => TreeDraft.mirrors_of_finish⟩,
    fun t ht => ?_⟩
  · rw [TreeDraft.run_step_eq_error, eq_self, true_and]
  · rw [TreeDraft.depth_calls]
    exact Nat.zero_add _
  · constructor
    · rintro ⟨t, ht⟩
      exact (TreeDraft.finish_eq_ok.1 ht).1
    · intro hdepth
      exact ⟨{ nodes := (TreeDraft.empty.calls steps).root },
        TreeDraft.finish_eq_ok.2 ⟨hdepth, rfl, rfl⟩⟩
  · obtain ⟨hcalls, hperformed⟩ := TreeDraft.calls_of_run (TreeDraft.run_tree t)
    refine ⟨hperformed, ?_⟩
    rw [hcalls]
    exact TreeDraft.finish_eq_ok.2 ⟨rfl, ht, rfl⟩

def nestedCalls : List Step :=
  [.leave, .add (.comment "outer"), .enter none, .add (.comment "one"),
    .enter (some (.notNull (.var "_x"))), .add (.comment "two"), .leave, .leave, .leave,
    .add (.comment "last")]

def nestedTree : Tree where
  nodes :=
    [.stmt (.comment "outer"),
      .block none [.stmt (.comment "one"),
        .block (some (.notNull (.var "_x"))) [.stmt (.comment "two")]],
      .stmt (.comment "last")]

theorem draft_mirrors_calls_nested :
    (TreeDraft.empty.calls nestedCalls).depth = 0
      ∧ (TreeDraft.step .leave).run (TreeDraft.empty.calls nestedCalls)
        = .error .closedRoot (TreeDraft.empty.calls nestedCalls)
      ∧ (TreeDraft.empty.calls nestedCalls).finish = .ok nestedTree
      ∧ TreeDraft.Mirrors nestedCalls nestedTree ∧ TreeDraft.empty.peak nestedCalls = 2
      ∧ nestedTree.guard = none
      ∧ (TreeDraft.empty.calls nestedTree.replay).finish = .ok nestedTree := by
  obtain ⟨hcalls, htrees⟩ := draft_mirrors_calls
  obtain ⟨hclose, _, _, hmirrors⟩ := hcalls nestedCalls
  have hdepth : (TreeDraft.empty.calls nestedCalls).depth = 0 := rfl
  have hfinish : (TreeDraft.empty.calls nestedCalls).finish = .ok nestedTree := rfl
  exact ⟨hdepth, (hclose _ _).2 ⟨hdepth, rfl, rfl⟩, hfinish, hmirrors nestedTree hfinish, rfl, rfl,
    (htrees nestedTree rfl).2⟩

end Scenograph
