import Scenograph.Composition.Traversal

namespace Scenograph

namespace CompositionObject

/-- An edge with the label may point at an object of the kind. A label that is also the property of
an animator is read as the animator's. -/
def allows (owner : CompositionObject) (label : String) (target : ObjectKind) : Bool :=
  if owner.animators.any (·.property == label) then target.isAnimation
  else match owner with
    | .containerVisual .. => target.isVisual
    | .spriteVisual .. | .effectBrush .. => target.isBrush
    | .surfaceBrush .. => target == .imageSurface
    | _ => true

end CompositionObject

namespace Graph

def rootFault? (g : Graph) : Option Fault :=
  match g.root with
  | none => some (.structural .graph .noRoot)
  | some id =>
      match g.objects[id]? with
      | none => some (.structural (.node id) .noSuchObject)
      | some o => if o.kind.isVisual then none else some (.structural (.node id) .rootNotVisual)

def edgeFlaw? (g : Graph) (owner : CompositionObject) (e : Edge) : Option Flaw :=
  match g.objects[e.target]? with
  | none => some (.danglingEdge e.label e.target)
  | some target =>
      if owner.allows e.label target.kind then none else some (.wrongTarget e.label target.kind)

def effectFault? (place : Place) (id : Nat) : CompositionObject → Option Fault
  | .effectBrush effect bound =>
      match effect.flaw?, sourcesOf effect bound with
      | some flaw, _ => some (.structural place flaw)
      | none, .error flaw => some (.structural (.node id) flaw)
      | none, .ok _ => none
  | _ => none

def objectFault? (g : Graph) (o : CompositionObject) (id : Nat) : Option Fault :=
  let place := Place.object o.kind id
  ((o.edges.findSome? (g.edgeFlaw? o)).map (Fault.structural place)).or <|
    (effectFault? place id o).or <|
      if o.referencesTheme && g.bindings.isEmpty then
        some (.structural place .themeWithoutBindings)
      else none

/-- Follows edges depth first. Each frame holds an object on the current path with the edges still
to follow; `touched` holds every object met so far. An edge to an object on the path closes a
cycle. -/
def findCycle (g : Graph) (touched : List Nat) :
    List (Nat × List Edge) → Except (Nat × String) (List Nat)
  | [] => .ok touched
  | (_, []) :: frames => findCycle g touched frames
  | (id, e :: rest) :: frames =>
      if e.target = id ∨ e.target ∈ frames.map (·.1) then .error (id, e.label)
      else if _h : touched.contains e.target = true ∨ g.objects.length ≤ e.target then
        findCycle g touched ((id, rest) :: frames)
      else
        findCycle g (e.target :: touched) ((e.target, g.edgesOf e.target) :: (id, rest) :: frames)
termination_by frames =>
  (unseen g.objects.length touched, frames.foldr (fun frame n => frame.2.length + 1 + n) 0)
decreasing_by
  · exact Prod.Lex.right _ (by simp)
  · exact Prod.Lex.right _ (by simp)
  · apply Prod.Lex.left
    have hnew : touched.contains e.target = false := by
      cases hc : touched.contains e.target with
      | false => rfl
      | true => exact absurd (Or.inl hc) _h
    have hid : e.target < g.objects.length :=
      Nat.lt_of_not_le fun hle => _h (Or.inr hle)
    apply unseen_lt hid hnew
    · simp
    · intro i hi
      simp at hi ⊢
      exact Or.inr hi

def findCycleFrom (g : Graph) (touched : List Nat) : List Nat → Except (Nat × String) (List Nat)
  | [] => .ok touched
  | start :: rest =>
      if touched.contains start then findCycleFrom g touched rest
      else do findCycleFrom g (← findCycle g (start :: touched) [(start, g.edgesOf start)]) rest

def cycleFault? (g : Graph) : Option Fault :=
  match findCycleFrom g [] (List.range g.objects.length) with
  | .ok _ => none
  | .error (id, label) => some (.structural (.node id) (.edgeClosesCycle label))

def fault? (g : Graph) : Option Fault :=
  g.rootFault?.or <|
    (g.objects.zipIdx.findSome? fun (o, id) => g.objectFault? o id).or g.cycleFault?

def validate (g : Graph) : Except Fault Unit :=
  match g.fault? with
  | some fault => .error fault
  | none => .ok ()

end Graph

end Scenograph
