import Scenograph.Proofs.Execution.Machine
import Scenograph.Proofs.Outcome

namespace Scenograph

def Extends {α : Type} (r r' : Except Halt α) : Prop :=
  ∀ a, r = .ok a → r' = .ok a

theorem Extends.refl {α : Type} (r : Except Halt α) : Extends r r :=
  fun _ => id

theorem Extends.bind {α β : Type} {r r' : Except Halt α} {f f' : α → Except Halt β}
    (h : Extends r r') (hf : ∀ a, Extends (f a) (f' a)) : Extends (r >>= f) (r' >>= f') := by
  intro b hb
  obtain ⟨a, ha, hfa⟩ := bind_eq_ok.1 hb
  exact bind_eq_ok.2 ⟨a, h a ha, hf a b hfa⟩

def Caller.Extends (c c' : Caller) : Prop :=
  ∀ name args m, Scenograph.Extends (c name args m) (c' name args m)

section Deeper

variable {c c' : Caller} {method : String} {locals : Store}

mutual

theorem Expr.eval_deeper (hc : c.Extends c') : ∀ (e : Expr) (m : Machine),
    Extends (e.eval c locals m) (e.eval c' locals m)
  | .var name, m => by
      rw [Expr.eval, Expr.eval]
      exact .refl _
  | .lit value, m => by
      rw [Expr.eval, Expr.eval]
      exact .refl _
  | .call receiver name args, m => by
      rw [Expr.eval, Expr.eval]
      exact (Expr.eval_deeper hc receiver m).bind fun (_, m) =>
        (Expr.evalAll_deeper hc args m).bind fun _ => .refl _
  | .selfCall name args, m => by
      rw [Expr.eval, Expr.eval]
      exact (Expr.evalAll_deeper hc args m).bind fun (vs, m) => hc name vs m
  | .staticCall type name args, m => by
      rw [Expr.eval, Expr.eval]
      exact (Expr.evalAll_deeper hc args m).bind fun _ => .refl _
  | .property receiver name, m => by
      rw [Expr.eval, Expr.eval]
      exact (Expr.eval_deeper hc receiver m).bind fun _ => .refl _
  | .field receiver name, m => by
      rw [Expr.eval, Expr.eval]
      exact (Expr.eval_deeper hc receiver m).bind fun _ => .refl _
  | .construct type args, m => by
      rw [Expr.eval, Expr.eval]
      exact (Expr.evalAll_deeper hc args m).bind fun _ => .refl _
  | .enumMember type member, m => by
      rw [Expr.eval, Expr.eval]
      exact .refl _
  | .notNull inner, m => by
      rw [Expr.eval, Expr.eval]
      exact (Expr.eval_deeper hc inner m).bind fun _ => .refl _

theorem Expr.evalAll_deeper (hc : c.Extends c') : ∀ (es : List Expr) (m : Machine),
    Extends (Expr.evalAll c locals es m) (Expr.evalAll c' locals es m)
  | [], m => by
      rw [Expr.evalAll, Expr.evalAll]
      exact .refl _
  | e :: es, m => by
      rw [Expr.evalAll, Expr.evalAll]
      exact (Expr.eval_deeper hc e m).bind fun (_, m) => (Expr.evalAll_deeper hc es m).bind fun _ => .refl _

end

theorem Statement.exec_deeper (hc : c.Extends c') (s : Statement) (m : Machine) :
    Extends (s.exec c method locals m) (s.exec c' method locals m) := by
  cases s with
  | declare type name value => exact (Expr.eval_deeper hc value m).bind fun _ => .refl _
  | assign target value => exact (Expr.eval_deeper hc value m).bind fun _ => .refl _
  | setProperty receiver name value =>
      exact (Expr.eval_deeper hc receiver m).bind fun (_, m) =>
        (Expr.eval_deeper hc value m).bind fun _ => .refl _
  | eval value => exact (Expr.eval_deeper hc value m).bind fun _ => .refl _
  | ret value =>
      cases value with
      | none => exact .refl _
      | some value => exact (Expr.eval_deeper hc value m).bind fun _ => .refl _
  | comment text => exact .refl _

theorem guardHolds_deeper (hc : c.Extends c') (guard : Option Expr) (m : Machine) :
    Extends (guardHolds c locals m guard) (guardHolds c' locals m guard) := by
  cases guard with
  | none => exact .refl _
  | some guard => exact (Expr.eval_deeper hc guard m).bind fun _ => .refl _

mutual

theorem Node.exec_deeper (hc : c.Extends c') : ∀ (n : Node) (locals : Store) (m : Machine),
    Extends (n.exec c method locals m) (n.exec c' method locals m)
  | .stmt s, locals, m => by
      rw [Node.exec, Node.exec]
      exact Statement.exec_deeper hc s m
  | .block guard nodes, locals, m => by
      rw [Node.exec, Node.exec]
      refine (guardHolds_deeper hc guard m).bind fun (holds, m) => ?_
      cases holds with
      | false => exact .refl _
      | true => exact (Node.execAll_deeper hc nodes locals m).bind fun _ => .refl _

theorem Node.execAll_deeper (hc : c.Extends c') : ∀ (nodes : List Node) (locals : Store) (m : Machine),
    Extends (Node.execAll c method nodes locals m) (Node.execAll c' method nodes locals m)
  | [], locals, m => by
      rw [Node.execAll, Node.execAll]
      exact .refl _
  | n :: nodes, locals, m => by
      rw [Node.execAll, Node.execAll]
      refine (Node.exec_deeper hc n locals m).bind fun stand => ?_
      cases stand.returned with
      | none => exact Node.execAll_deeper hc nodes stand.locals stand.machine
      | some v => exact .refl _

end

theorem Method.run_deeper (hc : c.Extends c') (f : Method) (args : List Value) (m : Machine) :
    Extends (f.run c args m) (f.run c' args m) := by
  rw [Method.run, Method.run]
  split
  · exact (Node.exec_deeper hc _ _ m).bind fun _ => .refl _
  · exact .refl _

theorem ClassUnit.initialise_deeper (hc : c.Extends c') (fields : List Field) (m : Machine) :
    Extends (ClassUnit.initialise c fields m) (ClassUnit.initialise c' fields m) := by
  induction fields generalizing m with
  | nil => exact .refl _
  | cons f fields ih =>
      rw [ClassUnit.initialise, ClassUnit.initialise]
      cases f.init with
      | none => exact (Extends.refl _).bind fun (_, m) => ih _
      | some value => exact (Expr.eval_deeper hc value m).bind fun (_, m) => ih _

end Deeper

namespace ClassUnit

variable {u : ClassUnit}

theorem invoke_deeper (depth : Nat) : (u.invoke depth).Extends (u.invoke (depth + 1)) := by
  induction depth with
  | zero =>
      intro name args m r h
      cases h
  | succ depth ih =>
      intro name args m
      simp only [invoke]
      cases u.method? name with
      | none => exact .refl _
      | some f => exact Method.run_deeper ih f args m

theorem construct_deeper {depth depth' : Nat} (hle : depth ≤ depth') (args : List Value) :
    Extends (u.construct depth args) (u.construct depth' args) := by
  induction hle with
  | refl => exact .refl _
  | @step depth' _ ih =>
      have hstep : Extends (u.construct depth' args) (u.construct (depth' + 1) args) := by
        refine (initialise_deeper (invoke_deeper depth') u.fields {}).bind fun m => ?_
        split
        · exact .refl _
        · exact (Method.run_deeper (invoke_deeper depth') _ args m).bind fun _ => .refl _
      exact fun m hm => hstep m (ih m hm)

end ClassUnit

end Scenograph
