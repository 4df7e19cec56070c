import Mathlib.Data.List.Sort
import Scenograph.Proofs.Number.TotalOrder
import Scenograph.Rendering.Animatable

namespace Scenograph

open Pattern

instance : Bits UInt64 := ⟨id⟩

namespace KeyFrame

variable {α ν : Type} [Bits α]

def bits (k : KeyFrame α ν) : UInt64 :=
  Bits.bits k.frame

def before (j k : KeyFrame α ν) : Bool :=
  totalLe j.frame k.frame

theorem before_iff {j k : KeyFrame α ν} : before j k = true ↔ TotalOrder j.bits k.bits :=
  totalLe_iff

theorem before_trans (i j k : KeyFrame α ν) (hij : before i j = true) (hjk : before j k = true) :
    before i k = true :=
  before_iff.2 ((before_iff.1 hij).trans (before_iff.1 hjk))

theorem before_total (j k : KeyFrame α ν) : (before j k || before k j) = true := by
  rw [Bool.or_eq_true, before_iff, before_iff]
  exact TotalOrder.total _ _

end KeyFrame

namespace Animatable

variable {α ν : Type} [Bits α]

def sorted (frames : List (KeyFrame α ν)) : List (KeyFrame α ν) :=
  frames.mergeSort KeyFrame.before

theorem sorted_perm (frames : List (KeyFrame α ν)) : (sorted frames).Perm frames :=
  List.mergeSort_perm _ _

theorem sorted_pairwise (frames : List (KeyFrame α ν)) :
    (sorted frames).Pairwise fun j k => KeyFrame.before j k = true :=
  List.pairwise_mergeSort KeyFrame.before_trans KeyFrame.before_total frames

theorem sorted_sorted (frames : List (KeyFrame α ν)) : sorted (sorted frames) = sorted frames :=
  List.mergeSort_of_pairwise (sorted_pairwise frames)

theorem filter_sorted (frames : List (KeyFrame α ν)) (b : UInt64) :
    ((sorted frames).filter fun k => k.bits = b) = frames.filter fun k => k.bits = b := by
  obtain ⟨same, hsame⟩ : ∃ same, same = frames.filter fun k => k.bits = b := ⟨_, rfl⟩
  have hbits : ∀ k ∈ same, k.bits = b := by
    rw [hsame]
    simp
  -- Key frames of one frame are in order whichever way round they stand.
  have hpairwise : same.Pairwise fun j k => KeyFrame.before j k = true :=
    List.pairwise_of_forall_mem_list fun j hj k hk =>
      KeyFrame.before_iff.2 (.same ((hbits j hj).trans (hbits k hk).symm))
  have hsublist : same.Sublist (sorted frames) :=
    List.sublist_mergeSort KeyFrame.before_trans KeyFrame.before_total hpairwise
      (hsame ▸ List.filter_sublist)
  have hkept : same.filter (fun k => k.bits = b) = same :=
    List.filter_eq_self.2 fun k hk => decide_eq_true (hbits k hk)
  have hinside : same.Sublist ((sorted frames).filter fun k => k.bits = b) := by
    have := hsublist.filter fun k => k.bits = b
    rwa [hkept] at this
  rw [← hsame]
  refine (hinside.eq_of_length ?_).symm
  rw [hsame]
  exact ((sorted_perm frames).filter _).length_eq.symm

theorem sorted_of_perm {frames other : List (KeyFrame α ν)} (hperm : other.Perm frames)
    (hdistinct : (frames.map KeyFrame.bits).Nodup) : sorted other = sorted frames := by
  have hsame : (sorted other).Perm (sorted frames) :=
    ((sorted_perm other).trans hperm).trans (sorted_perm frames).symm
  refine hsame.eq_of_pairwise ?_ (sorted_pairwise other) (sorted_pairwise frames)
  intro j k hj hk hjk hkj
  have hbits : j.bits = k.bits :=
    (KeyFrame.before_iff.1 hjk).antisymm (KeyFrame.before_iff.1 hkj)
  exact List.inj_on_of_nodup_map hdistinct (hperm.subset ((sorted_perm other).subset hj))
    ((sorted_perm frames).subset hk) hbits

theorem keyframed_eq (frames : List (KeyFrame α ν)) :
    keyframed frames = (sorted frames).head?.map fun first => ⟨first.value, sorted frames⟩ := by
  have hsorted : frames.mergeSort (fun j k => totalLe j.frame k.frame) = sorted frames := rfl
  unfold keyframed
  rw [hsorted]
  split
  · next hnil => rw [hnil]; rfl
  · next first rest hcons => rw [hcons]; rfl

theorem keyframed_eq_none {frames : List (KeyFrame α ν)} :
    keyframed frames = none ↔ frames = [] := by
  rw [keyframed_eq, Option.map_eq_none_iff, List.head?_eq_none_iff]
  exact ⟨fun h => (h ▸ sorted_perm frames).nil_eq.symm, fun h => h ▸ List.mergeSort_nil⟩

structure Ordered (frames : List (KeyFrame α ν)) (a : Animatable α ν) : Prop where
  perm : a.keyFrames.Perm frames
  rising : a.keyFrames.Pairwise fun j k => TotalOrder j.bits k.bits
  stable : ∀ b, (a.keyFrames.filter fun k => k.bits = b) = frames.filter fun k => k.bits = b
  initial : a.keyFrames.head?.map (·.value) = some a.initial
  again : keyframed a.keyFrames = some a
  order_free : (frames.map KeyFrame.bits).Nodup → ∀ other : List (KeyFrame α ν),
    other.Perm frames → keyframed other = some a

theorem keyframed_orders (frames : List (KeyFrame α ν)) :
    (keyframed frames = none ↔ frames = [])
      ∧ ∀ a, keyframed frames = some a → Ordered frames a := by
  refine ⟨keyframed_eq_none, fun a ha => ?_⟩
  have hmade := ha
  rw [keyframed_eq, Option.map_eq_some_iff] at hmade
  obtain ⟨first, hfirst, rfl⟩ := hmade
  refine ⟨sorted_perm frames, ?_, filter_sorted frames, ?_, ?_, ?_⟩
  · exact (sorted_pairwise frames).imp KeyFrame.before_iff.1
  · simp [hfirst]
  · rw [← ha, keyframed_eq, keyframed_eq, sorted_sorted]
  · intro hdistinct other hother
    rw [← ha, keyframed_eq, keyframed_eq, sorted_of_perm hother hdistinct]

def scatteredFrames : List (KeyFrame UInt64 Nat) :=
  [⟨0x7FF8000000000001, 6, .linear⟩, ⟨0, 4, .linear⟩, ⟨0x8000000000000000, 2, .hold⟩,
    ⟨0x3FF0000000000000, 5, .linear⟩, ⟨0xFFF8000000000000, 0, .linear⟩,
    ⟨0x8000000000000000, 3, .linear⟩, ⟨0xFFF0000000000000, 1, .linear⟩]

theorem keyframed_orders_scatteredFrames :
    ∃ a, keyframed scatteredFrames = some a ∧ a.keyFrames.map (·.value) = [0, 1, 2, 3, 4, 5, 6]
      ∧ a.initial = 0 ∧ Ordered scatteredFrames a := by
  have hsorted : sorted scatteredFrames
      = [⟨0xFFF8000000000000, 0, .linear⟩, ⟨0xFFF0000000000000, 1, .linear⟩,
        ⟨0x8000000000000000, 2, .hold⟩, ⟨0x8000000000000000, 3, .linear⟩, ⟨0, 4, .linear⟩,
        ⟨0x3FF0000000000000, 5, .linear⟩, ⟨0x7FF8000000000001, 6, .linear⟩] := by
    simp [sorted, scatteredFrames, List.mergeSort, List.MergeSort.Internal.splitInTwo,
      KeyFrame.before, totalLe, totalRank, Bits.bits]
  have hmade := keyframed_eq scatteredFrames
  rw [hsorted] at hmade
  exact ⟨_, hmade, rfl, rfl, (keyframed_orders scatteredFrames).2 _ hmade⟩

end Animatable

end Scenograph
