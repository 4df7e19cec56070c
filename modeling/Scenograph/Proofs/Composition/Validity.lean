import Scenograph.Composition.Check
import Scenograph.Proofs.Composition.Reachability

namespace Scenograph.Graph

variable {g : Graph}

theorem validate_eq_ok : g.validate = .ok () ↔ g.fault? = none := by
  unfold validate
  cases g.fault? <;> simp

theorem fault?_eq_none : g.fault? = none ↔ g.rootFault? = none
    ∧ (∀ i o, g.objects[i]? = some o → g.objectFault? o i = none) ∧ g.cycleFault? = none := by
  simp only [fault?, Option.or_eq_none_iff, List.findSome?_eq_none_iff, Prod.forall,
    List.mem_zipIdx_iff_getElem?]
  constructor
  · rintro ⟨hroot, hobjects, hcycle⟩
    exact ⟨hroot, fun i o ho => hobjects o i ho, hcycle⟩
  · rintro ⟨hroot, hobjects, hcycle⟩
    exact ⟨hroot, fun o i ho => hobjects i o ho, hcycle⟩

theorem validate_of_checks (hroot : g.rootFault? = none)
    (hobjects : g.objects.zipIdx.findSome? (fun x => g.objectFault? x.1 x.2) = none)
    (hcycle : g.cycleFault? = none) : g.validate = .ok () := by
  refine validate_eq_ok.2 (fault?_eq_none.2 ⟨hroot, fun i o ho => ?_, hcycle⟩)
  exact List.findSome?_eq_none_iff.1 hobjects (o, i) (List.mem_zipIdx_iff_getElem?.2 ho)

theorem objectFault?_eq_none {o : CompositionObject} {i : Nat} : g.objectFault? o i = none ↔
    (∀ e ∈ o.edges, g.edgeFlaw? o e = none) ∧ effectFault? (.object o.kind i) i o = none
      ∧ ¬ (o.referencesTheme = true ∧ g.bindings.isEmpty = true) := by
  simp only [objectFault?, Option.or_eq_none_iff, Option.map_eq_none_iff,
    List.findSome?_eq_none_iff]
  by_cases htheme : o.referencesTheme = true ∧ g.bindings.isEmpty = true
  · simp [htheme]
  · simp [htheme]

theorem edgeFlaw?_eq_none {o : CompositionObject} {e : Edge} : g.edgeFlaw? o e = none ↔
    ∃ target, g.objects[e.target]? = some target ∧ o.allows e.label target.kind = true := by
  unfold edgeFlaw?
  cases g.objects[e.target]? <;> simp

theorem effectFault?_eq_none {place : Place} {i : Nat} {effect : Effect}
    {bound : List BoundSource} : effectFault? place i (.effectBrush effect bound) = none ↔
      effect.flaw? = none ∧ ∃ sources, sourcesOf effect bound = .ok sources := by
  cases hflaw : effect.flaw? <;> cases hsources : sourcesOf effect bound <;>
    simp [effectFault?, hflaw, hsources]

theorem pairSources_eq_ok {slots : List String} {bound : List BoundSource}
    {sources : List (String × Nat)} (hlength : slots.length = bound.length)
    (h : pairSources slots bound = .ok sources) :
    sources = bound.map fun s => (s.name, s.brush) := by
  induction bound generalizing slots sources with
  | nil =>
      obtain rfl := List.eq_nil_of_length_eq_zero hlength
      cases h
      rfl
  | cons b bound ih =>
      obtain ⟨slot, slots, rfl⟩ := List.exists_cons_of_length_eq_add_one hlength
      rw [pairSources] at h
      split at h
      · next hslot =>
          obtain ⟨rest, hrest, h⟩ := bind_eq_ok.1 h
          cases h
          rw [ih (by simpa using hlength) hrest, hslot]
          rfl
      · cases h

theorem sourcesOf_eq_ok {effect : Effect} {bound : List BoundSource}
    {sources : List (String × Nat)} (h : sourcesOf effect bound = .ok sources) :
    sources = bound.map fun s => (s.name, s.brush) := by
  rw [sourcesOf] at h
  split at h
  · next hlength => exact pairSources_eq_ok hlength h
  · cases h

section Valid

variable (hg : g.validate = .ok ())

include hg

theorem root_of_valid :
    ∃ root o, g.root = some root ∧ g.objects[root]? = some o ∧ o.kind.isVisual = true := by
  have hroot := (fault?_eq_none.1 (validate_eq_ok.1 hg)).1
  unfold rootFault? at hroot
  split at hroot
  · cases hroot
  · next root h =>
      split at hroot
      · cases hroot
      · next o ho =>
          refine ⟨root, o, h, ho, ?_⟩
          by_contra hvisual
          simp [hvisual] at hroot

theorem objectFault?_of_valid {i : Nat} {o : CompositionObject} (ho : g.objects[i]? = some o) :
    g.objectFault? o i = none :=
  (fault?_eq_none.1 (validate_eq_ok.1 hg)).2.1 i o ho

theorem edge_of_valid {i : Nat} {o : CompositionObject} (ho : g.objects[i]? = some o) {e : Edge}
    (he : e ∈ o.edges) :
    ∃ target, g.objects[e.target]? = some target ∧ o.allows e.label target.kind = true :=
  edgeFlaw?_eq_none.1 ((objectFault?_eq_none.1 (objectFault?_of_valid hg ho)).1 e he)

theorem sources_of_valid {i : Nat} {effect : Effect} {bound : List BoundSource}
    (ho : g.objects[i]? = some (.effectBrush effect bound)) :
    ∃ sources, sourcesOf effect bound = .ok sources :=
  (effectFault?_eq_none.1 (objectFault?_eq_none.1 (objectFault?_of_valid hg ho)).2.1).2

theorem orderedSources_of_valid {i : Nat} {effect : Effect} {bound : List BoundSource}
    (ho : g.objects[i]? = some (.effectBrush effect bound)) :
    g.orderedSources i = .ok (effect, bound.map fun s => (s.name, s.brush)) := by
  obtain ⟨sources, hsources⟩ := sources_of_valid hg ho
  rw [orderedSources, get_eq_ok.2 ho, ok_bind]
  simp [hsources, sourcesOf_eq_ok hsources]

theorem cycleFault?_of_valid : g.cycleFault? = none :=
  (fault?_eq_none.1 (validate_eq_ok.1 hg)).2.2

theorem target_of_valid {i : Nat} {e : Edge} (he : e ∈ g.edgesOf i) :
    ∃ target, g.objects[e.target]? = some target := by
  cases ho : g.objects[i]? with
  | none => simp [edgesOf, ho] at he
  | some o =>
      rw [edgesOf_some ho] at he
      obtain ⟨target, htarget, _⟩ := edge_of_valid hg ho he
      exact ⟨target, htarget⟩

theorem preorder_of_valid : ∃ order, g.preorder = .ok order := by
  obtain ⟨root, o, hroot, ho, _⟩ := root_of_valid hg
  have hwait : ∀ i ∈ [root], ∃ o, g.objects[i]? = some o := by
    intro i hi
    exact ⟨o, List.mem_singleton.1 hi ▸ ho⟩
  obtain ⟨order, horder⟩ := visit_ok (fun _ _ he => target_of_valid hg he) [] hwait
  exact ⟨order, preorder_eq_ok.2 ⟨root, hroot, horder⟩⟩

end Valid

end Scenograph.Graph
