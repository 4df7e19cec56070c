import Scenograph.Composition.Graph

namespace Scenograph

def unseen (n : Nat) (seen : List Nat) : Nat :=
  (List.range n).countP fun i => !seen.contains i

theorem countP_lt_countP {α : Type} {p q : α → Bool} :
    ∀ {l : List α} {a : α}, (∀ x ∈ l, p x = true → q x = true) → a ∈ l → p a = false →
      q a = true → l.countP p < l.countP q := by
  intro l
  induction l with
  | nil => intro a _ ha; simp at ha
  | cons x xs ih =>
      intro a hpq ha hp hq
      have hle : xs.countP p ≤ xs.countP q :=
        List.countP_mono_left fun y hy h => hpq y (List.mem_cons_of_mem _ hy) h
      rcases List.mem_cons.1 ha with rfl | hmem
      · simp only [List.countP_cons, hp, hq]
        simp
        omega
      · have hlt := ih (fun y hy h => hpq y (List.mem_cons_of_mem _ hy) h) hmem hp hq
        have hx : p x = true → q x = true := hpq x (List.mem_cons_self ..)
        simp only [List.countP_cons]
        cases hpx : p x with
        | false => simp; omega
        | true => simp [hx hpx]; omega

theorem unseen_lt {n id : Nat} {seen seen' : List Nat} (hid : id < n) (hnew : seen.contains id = false)
    (hmem : seen'.contains id = true) (hsub : ∀ i, seen.contains i = true → seen'.contains i = true) :
    unseen n seen' < unseen n seen := by
  unfold unseen
  apply countP_lt_countP (a := id)
  · intro i _ h
    cases hs : seen.contains i with
    | false => rfl
    | true => rw [hsub i hs] at h; simp at h
  · exact List.mem_range.2 hid
  · rw [hmem]; rfl
  · rw [hnew]; rfl

namespace Graph

def visit (g : Graph) (seen : List Nat) : List Nat → Except Fault (List Nat)
  | [] => .ok seen
  | id :: waiting =>
      if _hseen : seen.contains id = true then visit g seen waiting
      else match _hget : g.objects[id]? with
        | none => .error (.structural (.node id) .noSuchObject)
        | some o => visit g (seen ++ [id]) (o.edges.map (·.target) ++ waiting)
termination_by waiting => (unseen g.objects.length seen, waiting.length)
decreasing_by
  · exact Prod.Lex.right _ (by simp)
  · apply Prod.Lex.left
    have hid : id < g.objects.length := (List.getElem?_eq_some_iff.1 _hget).1
    apply unseen_lt hid
    · simpa using _hseen
    · simp
    · intro i hi
      simp at hi ⊢
      exact Or.inl hi

def preorder (g : Graph) : Except Fault (List Nat) := do
  visit g [] [← g.getRoot]

def inDegrees (g : Graph) : Except Fault (List (Nat × Nat)) := do
  let order ← g.preorder
  let targets := order.flatMap g.targetsOf
  return (order.mergeSort fun a b => decide (a ≤ b)).map fun id => (id, targets.count id)

def assetOf (g : Graph) (id : Nat) : Option String :=
  match g.objects[id]? with
  | some (.imageSurface assetId _) => some assetId
  | _ => none

def referencedAssets (g : Graph) : Except Fault (List String) := do
  let order ← g.preorder
  return Catalog.sortedTexts (order.filterMap g.assetOf)

def themeAt (g : Graph) (id : Nat) : Bool :=
  match g.objects[id]? with
  | some o => o.referencesTheme
  | none => false

def usesTheme (g : Graph) : Except Fault Bool := do
  if !g.bindings.isEmpty then return true
  let order ← g.preorder
  return order.any g.themeAt

end Graph

end Scenograph
