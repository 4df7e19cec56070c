import Scenograph.Code.Member
import Scenograph.Fault
import Scenograph.Update

namespace Scenograph

structure Scope where
  guard : Option Expr
  nodes : List Node

structure TreeDraft where
  root : List Node := []
  scopes : List Scope := []

inductive Step where
  | enter (guard : Option Expr)
  | leave
  | add (s : Statement)

namespace TreeDraft

def empty : TreeDraft := {}

def depth (d : TreeDraft) : Nat :=
  d.scopes.length

def append (d : TreeDraft) (n : Node) : TreeDraft :=
  match d.scopes with
  | [] => { d with root := d.root ++ [n] }
  | s :: outer => { d with scopes := { s with nodes := s.nodes ++ [n] } :: outer }

def add (d : TreeDraft) (s : Statement) : TreeDraft :=
  d.append (.stmt s)

def enter (d : TreeDraft) (guard : Option Expr) : TreeDraft :=
  { d with scopes := ⟨guard, []⟩ :: d.scopes }

def leave : Update Misuse TreeDraft Unit := do
  match (← get).scopes with
  | [] => throw .closedRoot
  | s :: outer => modify fun d => { d with scopes := outer }.append (.block s.guard s.nodes)

def step : Step → Update Misuse TreeDraft Unit
  | .enter guard => modify fun d => d.enter guard
  | .leave => leave
  | .add s => modify fun d => d.add s

def run (d : TreeDraft) : List Step → Except Misuse TreeDraft
  | [] => .ok d
  | s :: rest => do run (← (step s).attempt d) rest

def finish (d : TreeDraft) : Except Misuse Tree :=
  match d.scopes with
  | [] => .ok { nodes := d.root }
  | _ => .error (.scopesOpen d.depth)

end TreeDraft

structure MethodDraft where
  name : Option String := none
  parameters : List Parameter := []
  returns : Option TypeRef := none
  comment : Option String := none
  visibility : Visibility := .hidden
  isConstructor : Bool := false
  isStatic : Bool := false
  body : TreeDraft := {}

namespace MethodDraft

def empty : MethodDraft := {}

def withParameter (m : MethodDraft) (name : String) (type : TypeRef) : MethodDraft :=
  { m with parameters := m.parameters ++ [⟨name, type⟩] }

def asConstructor (m : MethodDraft) : MethodDraft :=
  { m with isConstructor := true, returns := some (.builtIn .void) }

def run (m : MethodDraft) (steps : List Step) : Except Misuse MethodDraft := do
  return { m with body := ← m.body.run steps }

def finish (m : MethodDraft) : Except Misuse Method :=
  match m.name with
  | none => .error .unnamedMethod
  | some name =>
      match m.returns with
      | none => .error (.untypedMethod name)
      | some returns => do
          let body ← m.body.finish
          return {
            name, returns, body
            parameters := m.parameters
            comment := m.comment
            visibility := m.visibility
            isConstructor := m.isConstructor
            isStatic := m.isStatic }

end MethodDraft

end Scenograph
