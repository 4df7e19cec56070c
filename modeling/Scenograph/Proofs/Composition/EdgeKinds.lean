import Scenograph.Proofs.Composition.Validity

/-!
Kinds along the edges of a valid graph. An edge is known by its label alone, and a label that is also
the property of an animator is taken for the animator's. So the fields of an object lead to the kinds
that they stand for exactly when no animator of the object has the label of a field.
-/

namespace Scenograph

def Graph.HasKind (g : Graph) (i : Nat) (fits : ObjectKind → Bool) : Prop :=
  ∃ o, g.objects[i]? = some o ∧ fits o.kind = true

namespace CompositionObject

def WellKinded (g : Graph) (o : CompositionObject) : Prop :=
  (∀ a ∈ o.animators, g.HasKind a.animation ObjectKind.isAnimation)
    ∧ match o with
      | .containerVisual _ children _ => ∀ c ∈ children, g.HasKind c ObjectKind.isVisual
      | .spriteVisual _ brush _ => ∀ b ∈ brush, g.HasKind b ObjectKind.isBrush
      | .effectBrush _ sources => ∀ s ∈ sources, g.HasKind s.brush ObjectKind.isBrush
      | .surfaceBrush surface => g.HasKind surface (· == .imageSurface)
      | _ => True

def LabelsApart (o : CompositionObject) : Prop :=
  ∀ e ∈ o.ownEdges, ∀ a ∈ o.animators, a.property ≠ e.label

def fieldKind : CompositionObject → ObjectKind → Bool
  | .containerVisual .. => ObjectKind.isVisual
  | .spriteVisual .. | .effectBrush .. => ObjectKind.isBrush
  | .surfaceBrush .. => (· == .imageSurface)
  | _ => fun _ => true

variable {g : Graph} {o : CompositionObject}

theorem allows_of_animator {label : String} {kind : ObjectKind}
    (h : ∃ a ∈ o.animators, a.property = label) : o.allows label kind = kind.isAnimation := by
  have hany : o.animators.any (·.property == label) = true := by
    simpa [List.any_eq_true] using h
  simp [allows, hany]

theorem allows_of_field {label : String} {kind : ObjectKind}
    (h : ∀ a ∈ o.animators, a.property ≠ label) : o.allows label kind = o.fieldKind kind := by
  have hany : o.animators.any (·.property == label) = false := by
    simpa [List.any_eq_false] using h
  cases o <;> simp [allows, hany, fieldKind]

theorem fieldKind_of_animated {e : Edge} {a : Animator} {kind : ObjectKind} (he : e ∈ o.ownEdges)
    (ha : a ∈ o.animators) (hkind : kind.isAnimation = true) : o.fieldKind kind = false := by
  cases o with
  | containerVisual properties children animators => cases kind <;> first | rfl | cases hkind
  | spriteVisual properties brush animators => cases kind <;> first | rfl | cases hkind
  | colorBrush color animators => cases he
  | _ => cases ha

section Valid

variable {i : Nat} (hg : g.validate = .ok ()) (ho : g.objects[i]? = some o)

include hg ho

theorem hasKind_of_animator {e : Edge} (he : e ∈ o.edges)
    (hanimator : ∃ a ∈ o.animators, a.property = e.label) :
    g.HasKind e.target ObjectKind.isAnimation := by
  obtain ⟨target, htarget, hallows⟩ := Graph.edge_of_valid hg ho he
  rw [allows_of_animator hanimator] at hallows
  exact ⟨target, htarget, hallows⟩

theorem wellKinded_iff_fields : o.WellKinded g ↔
    (∀ a ∈ o.animators, g.HasKind a.animation ObjectKind.isAnimation)
      ∧ ∀ e ∈ o.ownEdges, g.HasKind e.target o.fieldKind := by
  have hexists : ∀ e ∈ o.ownEdges, g.HasKind e.target fun _ => true := by
    intro e he
    obtain ⟨target, htarget, _⟩ := Graph.edge_of_valid hg ho (List.mem_append_left _ he)
    exact ⟨target, htarget, rfl⟩
  refine and_congr_right fun _ => ?_
  cases o with
  | containerVisual properties children animators => simp [ownEdges, fieldKind]
  | spriteVisual properties brush animators => simp [ownEdges, fieldKind]
  | effectBrush effect sources => simp [ownEdges, fieldKind]
  | surfaceBrush surface => simp [ownEdges, fieldKind]
  | expressionAnimation expression references => exact iff_of_true trivial hexists
  | _ => simp [ownEdges]

end Valid

end CompositionObject

theorem wellKinded_iff_labelsApart {g : Graph} (hg : g.validate = .ok ()) {i : Nat}
    {o : CompositionObject} (ho : g.objects[i]? = some o) :
    (∀ a ∈ o.animators, g.HasKind a.animation ObjectKind.isAnimation)
      ∧ (o.WellKinded g ↔ o.LabelsApart) := by
  have hanimators : ∀ a ∈ o.animators, g.HasKind a.animation ObjectKind.isAnimation := by
    intro a ha
    have he : (⟨a.property, a.animation⟩ : Edge) ∈ o.edges :=
      List.mem_append_right _ (List.mem_map_of_mem ha)
    exact CompositionObject.hasKind_of_animator hg ho he ⟨a, ha, rfl⟩
  refine ⟨hanimators, ?_⟩
  rw [CompositionObject.wellKinded_iff_fields hg ho]
  constructor
  · rintro ⟨_, hfields⟩ e he a ha hlabel
    obtain ⟨target, htarget, hfits⟩ := hfields e he
    -- the edge was taken for the animator's, and no field of an animated object asks for an animation
    obtain ⟨target', htarget', hanimation⟩ :=
      CompositionObject.hasKind_of_animator hg ho (List.mem_append_left _ he) ⟨a, ha, hlabel⟩
    cases htarget.symm.trans htarget'
    rw [CompositionObject.fieldKind_of_animated he ha hanimation] at hfits
    cases hfits
  · intro hapart
    refine ⟨hanimators, fun e he => ?_⟩
    obtain ⟨target, htarget, hallows⟩ := Graph.edge_of_valid hg ho (List.mem_append_left _ he)
    rw [CompositionObject.allows_of_field (hapart e he)] at hallows
    exact ⟨target, htarget, hallows⟩

def animatedChildren : CompositionObject :=
  .containerVisual {} [1] [⟨"Children", 1⟩]

def animatedChildrenScene : Graph where
  objects := [animatedChildren, .scalarAnimation []]
  root := some 0
  bindings := Catalog.empty

theorem wellKinded_iff_labelsApart_animatedChildren :
    animatedChildrenScene.validate = .ok ()
      ∧ animatedChildrenScene.objects[0]? = some animatedChildren
      ∧ (∀ a ∈ animatedChildren.animators,
          animatedChildrenScene.HasKind a.animation ObjectKind.isAnimation)
      ∧ (animatedChildren.WellKinded animatedChildrenScene ↔ animatedChildren.LabelsApart)
      ∧ ¬ animatedChildren.WellKinded animatedChildrenScene := by
  have hvalid : animatedChildrenScene.validate = .ok () := by cbv
  have hobject : animatedChildrenScene.objects[0]? = some animatedChildren := rfl
  obtain ⟨hanimators, hiff⟩ := wellKinded_iff_labelsApart hvalid hobject
  refine ⟨hvalid, hobject, hanimators, hiff, fun hkinds => ?_⟩
  exact hiff.1 hkinds ⟨"Children", 1⟩ (by decide) ⟨"Children", 1⟩ (by decide) rfl

end Scenograph
