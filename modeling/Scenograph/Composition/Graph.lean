import Scenograph.Composition.Binding
import Scenograph.Composition.Object

namespace Scenograph

structure Graph where
  objects : List CompositionObject
  root : Option Nat
  bindings : Bindings
  deriving DecidableEq, Repr

namespace Graph

def empty : Graph :=
  ⟨[], none, Catalog.empty⟩

def size (g : Graph) : Nat :=
  g.objects.length

def add (g : Graph) (o : CompositionObject) : Graph :=
  { g with objects := g.objects ++ [o] }

def withRoot (g : Graph) (root : Nat) : Graph :=
  { g with root := some root }

def bind (b : Binding) : Update Fault Graph Unit :=
  (Bindings.add b).within (·.bindings) fun g set => { g with bindings := set }

def get (g : Graph) (id : Nat) : Except Fault CompositionObject :=
  match g.objects[id]? with
  | some o => .ok o
  | none => .error (.structural (.node id) .noSuchObject)

def getRoot (g : Graph) : Except Fault Nat :=
  match g.root with
  | some id => .ok id
  | none => .error (.structural .graph .noRoot)

def edgesOf (g : Graph) (id : Nat) : List Edge :=
  match g.objects[id]? with
  | some o => o.edges
  | none => []

def targetsOf (g : Graph) (id : Nat) : List Nat :=
  (g.edgesOf id).map (·.target)

def effectKind (g : Graph) (id : Nat) : Except Fault (Option EffectKind) := do
  match ← g.get id with
  | .effectBrush effect _ => return some effect.kind
  | _ => return none

def pairSources : List String → List BoundSource → Except Flaw (List (String × Nat))
  | slot :: slots, bound :: rest =>
      if slot = bound.name then do
        return (slot, bound.brush) :: (← pairSources slots rest)
      else .error (.sourceOrder bound.name slot)
  | _, _ => .ok []

def sourcesOf (effect : Effect) (bound : List BoundSource) : Except Flaw (List (String × Nat)) :=
  if effect.sources.length = bound.length then pairSources effect.sources bound
  else .error (.sourceCount effect.kind effect.sources.length bound.length)

def orderedSources (g : Graph) (id : Nat) : Except Fault (Effect × List (String × Nat)) := do
  match ← g.get id with
  | .effectBrush effect bound =>
      match sourcesOf effect bound with
      | .ok sources => return (effect, sources)
      | .error flaw => throw (.structural (.node id) flaw)
  | _ => throw (.structural (.node id) .notEffectBrush)

end Graph

end Scenograph
