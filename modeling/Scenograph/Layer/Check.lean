import Scenograph.Fault
import Scenograph.Layer.Asset
import Scenograph.Layer.Basic

namespace Scenograph.Layer

def place (layer : Layer Float) : Place :=
  .layer layer.index layer.placement.name

def ownFlaws (assets : Registry) (earlier : List Nat) (layer : Layer Float) : List Flaw :=
  (if earlier.contains layer.index then [.duplicateLayerIndex] else [])
    ++ (if layer.placement.outFrame < layer.placement.inFrame then [.framesReversed] else [])
    ++ (match layer.assetId? with
      | some id => if assets.contains id then [] else [.missingAsset id]
      | none => [])

def allOwnFlaws (assets : Registry) (earlier : List Nat) :
    List (Layer Float) → List (Layer Float × Flaw)
  | [] => []
  | layer :: rest =>
      (ownFlaws assets earlier layer).map (fun flaw => (layer, flaw))
        ++ allOwnFlaws assets (layer.index :: earlier) rest

def ofIndex? (layers : List (Layer Float)) (index : Nat) : Option (Layer Float) :=
  layers.reverse.find? (·.index == index)

def parentOf (layers : List (Layer Float)) (index : Nat) : Option Nat :=
  (ofIndex? layers index).bind (·.placement.parent)

def ahead (layers : List (Layer Float)) (passed : List Nat) : List (Layer Float) :=
  layers.filter fun layer => !passed.contains layer.index

theorem ahead_cons (layers : List (Layer Float)) (index : Nat) (passed : List Nat) :
    ahead layers (index :: passed) = (ahead layers passed).filter fun layer => layer.index != index := by
  unfold ahead
  rw [List.filter_filter]
  apply List.filter_congr
  intro layer _
  rw [List.contains_cons, Bool.not_or]
  rfl

theorem index_of_ofIndex? {layers : List (Layer Float)} {index : Nat} {layer : Layer Float}
    (h : ofIndex? layers index = some layer) : layer ∈ layers ∧ layer.index = index := by
  refine ⟨List.mem_reverse.1 (List.mem_of_find?_eq_some h), ?_⟩
  have hindex := List.find?_some h
  simpa using hindex

theorem ahead_length_lt {layers : List (Layer Float)} {index : Nat} {layer : Layer Float}
    {passed : List Nat} (h : ofIndex? layers index = some layer)
    (hnew : passed.contains index = false) :
    (ahead layers (index :: passed)).length < (ahead layers passed).length := by
  obtain ⟨hlayer, rfl⟩ := index_of_ofIndex? h
  rw [ahead_cons, List.length_filter_lt_length_iff_exists]
  refine ⟨layer, List.mem_filter.2 ⟨hlayer, ?_⟩, ?_⟩
  · rw [hnew]
    rfl
  · simp

/-- Following parents comes back to an index that was passed before. Every index but the last is that
of a layer, so there are fewer and fewer layers ahead. -/
def comesBack (layers : List (Layer Float)) (passed : List Nat) : Option Nat → Bool
  | none => false
  | some index =>
      if _hpassed : passed.contains index = true then true
      else comesBack layers (index :: passed) (parentOf layers index)
termination_by current => current.elim 0 fun _ => (ahead layers passed).length + 1
decreasing_by
  cases hlayer : ofIndex? layers index with
  | none => simp [parentOf, hlayer]
  | some layer =>
      have hlt := ahead_length_lt hlayer (by simpa using _hpassed)
      cases parentOf layers index with
      | none => simp
      | some parent => simpa using hlt

def parentFlaw? (layers : List (Layer Float)) (layer : Layer Float) : Option Flaw :=
  match layer.placement.parent with
  | none => none
  | some parent =>
      if (ofIndex? layers parent).isNone then some (.missingParent parent)
      else if comesBack layers [layer.index] (some parent) then
        some .parentCycle
      else none

def flaws (layers : List (Layer Float)) (assets : Registry) : List (Layer Float × Flaw) :=
  allOwnFlaws assets [] layers
    ++ layers.filterMap fun layer => (parentFlaw? layers layer).map fun flaw => (layer, flaw)

def faults (layers : List (Layer Float)) (assets : Registry) : List Fault :=
  (flaws layers assets).map fun found => .structural found.1.place found.2

end Scenograph.Layer
