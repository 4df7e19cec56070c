import Scenograph.Code.Member
import Scenograph.Composition.Check
import Scenograph.Spelling.Word
import Scenograph.Target
import Scenograph.Text.LowerCase

namespace Scenograph

structure Plan where
  target : Target
  graph : Graph
  order : List Nat
  names : List (Nat × String)
  shared : List Nat

namespace Plan

structure Naming where
  counts : ObjectKind → Nat := fun _ => 0
  names : List (Nat × String) := []

def Naming.add (g : Graph) (s : Naming) (id : Nat) : Except Fault Naming := do
  let kind := (← g.get id).kind
  return {
    counts := fun k => if k = kind then s.counts k + 1 else s.counts k
    names := s.names ++ [(id, kind.name ++ "_" ++ shown (s.counts kind))] }

def ofGraph (t : Target) (g : Graph) : Except Fault Plan := do
  g.validate
  let order ← g.preorder
  let naming ← order.foldlM (Naming.add g) {}
  let degrees ← g.inDegrees
  let shared := (degrees.filter fun d => decide (1 < d.2)).map (·.1)
  return { target := t, graph := g, order, names := naming.names, shared }

def nameOf (p : Plan) (id : Nat) : Except Fault String :=
  match p.names.lookup id with
  | some name => .ok name
  | none => .error (.structural (.node id) .notReachable)

def factoryCall (p : Plan) (id : Nat) : Except Fault Expr := do
  return .selfCall (← p.nameOf id) []

def cacheField (factory : String) : String :=
  "_" ++ lowerFirst factory

def compositionType (p : Plan) (name : String) : TypeRef :=
  .imported p.target.compositionSpace name

def objectType (p : Plan) (kind : ObjectKind) : TypeRef :=
  match kind with
  | .imageSurface => .imported p.target.mediaSpace kind.name
  | _ => p.compositionType kind.name

def backingField (b : Binding) : String :=
  "_theme" ++ b.name

def fixedMembers : List String :=
  ["RootVisual", "Duration", "Size", "EnsureThemeProperties", "ColorAsVector4"]

def fixedFields : List String :=
  ["_c", "_root", "_themeProperties"]

def clashes (p : Plan) (name : String) : Bool :=
  name == p.target.className || fixedMembers.contains name || fixedFields.contains name
    || (p.graph.bindings.values.map backingField).contains name
    || p.names.any (·.2 == name)

def bindingFlaw? (p : Plan) (b : Binding) : Option Flaw :=
  if p.clashes b.name then some .memberClash
  else if p.target.language.isReserved b.name then some (.bindingIsKeyword p.target.language)
  else none

def checkBindings (p : Plan) : Except Fault Unit :=
  match p.graph.bindings.values.findSome? fun b =>
      (p.bindingFlaw? b).map (Fault.structural (.binding b.name)) with
  | some fault => .error fault
  | none => .ok ()

end Plan

end Scenograph
