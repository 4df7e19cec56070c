import Scenograph.Proofs.Composition.Validity

namespace Scenograph

def Animator.rename (f : Nat → Nat) (a : Animator) : Animator :=
  { a with animation := f a.animation }

def BoundSource.rename (f : Nat → Nat) (s : BoundSource) : BoundSource :=
  { s with brush := f s.brush }

def Reference.rename (f : Nat → Nat) : Reference → Reference
  | .node id => .node (f id)
  | .theme => .theme

def NamedReference.rename (f : Nat → Nat) (r : NamedReference) : NamedReference :=
  { r with target := r.target.rename f }

def Edge.rename (f : Nat → Nat) (e : Edge) : Edge :=
  { e with target := f e.target }

def CompositionObject.rename (f : Nat → Nat) : CompositionObject → CompositionObject
  | .containerVisual properties children animators =>
      .containerVisual properties (children.map f) (animators.map (Animator.rename f))
  | .spriteVisual properties brush animators =>
      .spriteVisual properties (brush.map f) (animators.map (Animator.rename f))
  | .colorBrush color animators => .colorBrush color (animators.map (Animator.rename f))
  | .effectBrush effect sources => .effectBrush effect (sources.map (BoundSource.rename f))
  | .surfaceBrush surface => .surfaceBrush (f surface)
  | .imageSurface assetId uri => .imageSurface assetId uri
  | .scalarAnimation keyFrames => .scalarAnimation keyFrames
  | .vector2Animation keyFrames => .vector2Animation keyFrames
  | .expressionAnimation expression references =>
      .expressionAnimation expression (references.map (NamedReference.rename f))

namespace CompositionObject

variable (f : Nat → Nat) (o : CompositionObject)

theorem kind_rename : (o.rename f).kind = o.kind := by
  cases o <;> rfl

theorem edge?_rename (r : NamedReference) : (r.rename f).edge? = r.edge?.map (Edge.rename f) := by
  obtain ⟨name, target⟩ := r
  cases target <;> rfl

theorem edges_rename : (o.rename f).edges = o.edges.map (Edge.rename f) := by
  cases o <;>
    simp [edges, ownEdges, animators, rename, Function.comp_def, Edge.rename, Animator.rename,
      BoundSource.rename, List.filterMap_map, List.map_filterMap, edge?_rename, Option.toList_map]

theorem referencesTheme_rename : (o.rename f).referencesTheme = o.referencesTheme := by
  cases o with
  | expressionAnimation expression references =>
      simp only [rename, referencesTheme, List.any_map]
      congr 1
      funext r
      obtain ⟨name, target⟩ := r
      cases target <;> rfl
  | _ => rfl

end CompositionObject

namespace Graph

structure Renamed (f : Nat → Nat) (g h : Graph) : Prop where
  bindings : h.bindings = g.bindings
  root : h.root = g.root.map f
  injective : ∀ i j, g.Reachable i → g.Reachable j → f i = f j → i = j
  objects : ∀ i o, g.Reachable i → g.objects[i]? = some o → h.objects[f i]? = some (o.rename f)

section Walk

variable {f : Nat → Nat} {g h : Graph} (hf : Renamed f g h)

include hf

theorem Renamed.mem_map {l : List Nat} {i : Nat} (hl : ∀ j ∈ l, g.Reachable j)
    (hi : g.Reachable i) : f i ∈ l.map f ↔ i ∈ l := by
  constructor
  · intro hmem
    obtain ⟨j, hj, heq⟩ := List.mem_map.1 hmem
    exact hf.injective j i (hl j hj) hi heq ▸ hj
  · exact List.mem_map_of_mem

theorem Renamed.count_map {l : List Nat} {i : Nat} (hl : ∀ j ∈ l, g.Reachable j)
    (hi : g.Reachable i) : (l.map f).count (f i) = l.count i := by
  rw [List.count, List.countP_map]
  refine List.countP_congr fun j hj => ?_
  have hiff : f j = f i ↔ j = i := ⟨hf.injective j i (hl j hj) hi, congrArg f⟩
  simpa using hiff

theorem Renamed.targetsOf {i : Nat} {o : CompositionObject} (hi : g.Reachable i)
    (ho : g.objects[i]? = some o) : h.targetsOf (f i) = (g.targetsOf i).map f := by
  rw [targetsOf_some ho, targetsOf_some (hf.objects i o hi ho), CompositionObject.edges_rename,
    List.map_map, List.map_map]
  rfl

theorem Renamed.visit {seen waiting order : List Nat} (hseen : ∀ i ∈ seen, g.Reachable i)
    (hwaiting : ∀ i ∈ waiting, g.Reachable i) (horder : g.visit seen waiting = .ok order) :
    h.visit (seen.map f) (waiting.map f) = .ok (order.map f) := by
  induction seen, waiting using Graph.visit.induct (g := g) with
  | case1 seen =>
      rw [visit_nil] at horder
      cases horder
      exact visit_nil _
  | case2 seen i waiting hmem ih =>
      have hmem : i ∈ seen := by simpa using hmem
      rw [visit_seen hmem] at horder
      rw [List.map_cons, visit_seen (List.mem_map_of_mem hmem)]
      exact ih hseen (fun j hj => hwaiting j (List.mem_cons_of_mem _ hj)) horder
  | case3 seen i waiting hmem hget =>
      rw [visit_missing (by simpa using hmem) hget] at horder
      cases horder
  | case4 seen i waiting hmem o hget ih =>
      have hmem : i ∉ seen := by simpa using hmem
      have hi : g.Reachable i := hwaiting i (List.mem_cons_self ..)
      have htargets : ∀ j ∈ g.targetsOf i, g.Reachable j := fun j hj => hi.step hj
      rw [visit_new hmem hget] at horder
      rw [List.map_cons, visit_new (fun hf' => hmem ((hf.mem_map hseen hi).1 hf'))
        (hf.objects i o hi hget), hf.targetsOf hi hget]
      rw [← targetsOf_some hget] at ih
      have hall := ih (by
          intro j hj
          rcases List.mem_append.1 hj with hj | hj
          · exact hseen j hj
          · exact List.mem_singleton.1 hj ▸ hi)
        (by
          intro j hj
          rcases List.mem_append.1 hj with hj | hj
          · exact htargets j hj
          · exact hwaiting j (List.mem_cons_of_mem _ hj)) horder
      simpa using hall

theorem Renamed.preorder {order : List Nat} (horder : g.preorder = .ok order) :
    h.preorder = .ok (order.map f) := by
  obtain ⟨root, hroot, hvisit⟩ := preorder_eq_ok.1 horder
  have hwaiting : ∀ i ∈ [root], g.Reachable i := by
    intro i hi
    exact ⟨root, hroot, List.mem_singleton.1 hi ▸ .refl⟩
  have hroot' : h.root = some (f root) := by rw [hf.root, hroot, Option.map_some]
  exact preorder_eq_ok.2 ⟨f root, hroot', hf.visit (by simp) hwaiting hvisit⟩

end Walk

end Graph

end Scenograph
