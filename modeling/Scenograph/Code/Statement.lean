import Scenograph.Code.Expression

namespace Scenograph

inductive Statement where
  | declare (type : TypeRef) (name : String) (value : Expr)
  | assign (target : String) (value : Expr)
  | setProperty (receiver : Expr) (name : String) (value : Expr)
  | eval (value : Expr)
  | ret (value : Option Expr)
  | comment (text : String)
  deriving Inhabited

namespace Statement

def types : Statement → List TypeRef
  | .declare type _ value => type :: value.types
  | .assign _ value => value.types
  | .setProperty receiver _ value => receiver.types ++ value.types
  | .eval value => value.types
  | .ret (some value) => value.types
  | .ret none | .comment _ => []

def expressions : Statement → List Expr
  | .declare _ _ value => [value]
  | .assign _ value => [value]
  | .setProperty receiver _ value => [receiver, value]
  | .eval value => [value]
  | .ret (some value) => [value]
  | .ret none | .comment _ => []

def calls (name : String) (s : Statement) : Bool :=
  s.expressions.any (·.calls name)

end Statement

inductive Node where
  | stmt (s : Statement)
  | block (guard : Option Expr) (nodes : List Node)
  deriving Inhabited

namespace Node

mutual

def statements : Node → List Statement
  | .stmt s => [s]
  | .block _ nodes => allStatements nodes

def allStatements : List Node → List Statement
  | [] => []
  | n :: rest => statements n ++ allStatements rest

end

def guardTypes (guard : Option Expr) : List TypeRef :=
  guard.toList.flatMap Expr.types

mutual

def types : Node → List TypeRef
  | .stmt s => s.types
  | .block guard nodes => guardTypes guard ++ allTypes nodes

def allTypes : List Node → List TypeRef
  | [] => []
  | n :: rest => types n ++ allTypes rest

end

mutual

def depth : Node → Nat
  | .stmt _ => 0
  | .block _ nodes => 1 + maxDepth nodes

def maxDepth : List Node → Nat
  | [] => 0
  | n :: rest => max (depth n) (maxDepth rest)

end

end Node

structure Tree where
  guard : Option Expr := none
  nodes : List Node := []
  deriving Inhabited

namespace Tree

def isEmpty (t : Tree) : Bool :=
  t.nodes.isEmpty

def statements (t : Tree) : List Statement :=
  Node.allStatements t.nodes

def types (t : Tree) : List TypeRef :=
  Node.guardTypes t.guard ++ Node.allTypes t.nodes

def depth (t : Tree) : Nat :=
  Node.maxDepth t.nodes

end Tree

end Scenograph
