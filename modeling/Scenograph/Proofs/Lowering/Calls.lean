import Mathlib.Data.List.Forall2
import Scenograph.Proofs.Lowering.Factories
import Scenograph.Proofs.Lowering.Scope

namespace Scenograph

namespace Expr

mutual

def selfCalls : Expr → List String
  | .var _ | .lit _ | .enumMember _ _ => []
  | .call receiver _ args => selfCalls receiver ++ allSelfCalls args
  | .selfCall method args => method :: allSelfCalls args
  | .staticCall _ _ args | .construct _ args => allSelfCalls args
  | .property inner _ | .field inner _ | .notNull inner => selfCalls inner

def allSelfCalls : List Expr → List String
  | [] => []
  | e :: rest => selfCalls e ++ allSelfCalls rest

end

end Expr

namespace Statement

def selfCalls (s : Statement) : List String :=
  s.expressions.flatMap Expr.selfCalls

end Statement

namespace Node

mutual

def selfCalls : Node → List String
  | .stmt s => s.selfCalls
  | .block guard nodes => guard.toList.flatMap Expr.selfCalls ++ allSelfCalls nodes

def allSelfCalls : List Node → List String
  | [] => []
  | n :: rest => selfCalls n ++ allSelfCalls rest

end

end Node

def Tree.selfCalls (t : Tree) : List String :=
  Node.selfCalls (.block t.guard t.nodes)

namespace CompositionObject

def ownLink (o : CompositionObject) (type : TypeRef) (label : String) (given : Expr) : Statement :=
  match o with
  | .containerVisual .. => .eval (.call (.var "children") "InsertAtTop" [given])
  | .spriteVisual .. => .setProperty Plan.result "Brush" given
  | .effectBrush .. => .eval (.call Plan.result "SetSourceParameter" [.text label, given])
  | .expressionAnimation .. =>
      .eval (.call Plan.result "SetReferenceParameter" [.text label, given])
  -- of the others only surface brushes have an edge
  | _ => Plan.declareResult type (Plan.create "CreateSurfaceBrush" [given])

def animationLink (label : String) (given : Expr) : Statement :=
  .eval (.call Plan.result "StartAnimation" [.text label, given])

def links (o : CompositionObject) (type : TypeRef) (factoryOf : Nat → String) : List Statement :=
  (o.ownEdges.map fun e => o.ownLink type e.label (.selfCall (factoryOf e.target) []))
    ++ o.animators.map fun a => animationLink a.property (.selfCall (factoryOf a.animation) [])

end CompositionObject

namespace Graph

def factoryOf (g : Graph) (order : List Nat) (i : Nat) : String :=
  match g.objects[i]? with
  | some o => Plan.factoryName o.kind (g.numberOf order i o.kind)
  | none => ""

end Graph

namespace Plan

namespace Planned

variable {g : Graph} {t : Target} {p : Plan} (hp : Planned t g p)

include hp

end Planned

section Nodes

variable (shared : Bool) (name : String) (body : List Statement)

end Nodes

end Plan

end Scenograph
