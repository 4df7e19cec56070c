import Mathlib.Algebra.Field.Basic
import Scenograph.Geometry
import Scenograph.Proofs.Number.Double

namespace Scenograph

open Float.Model Float.Model.UnpackedFloat

def SameNumber {α : Type} [BEq α] (a b : α) : Prop :=
  a = b ∨ (a == b) = true

class LawfulScalar (α : Type) [Scalar α] : Prop where
  beq_trans {a b c : α} (hab : (a == b) = true) (hbc : (b == c) = true) : (a == c) = true
  sub_same {a b c d : α} (hab : SameNumber a b) (hcd : SameNumber c d) :
    SameNumber (a - c) (b - d)
  div_same {a b : α} (hab : SameNumber a b) (c : α) : SameNumber (a / c) (b / c)
  zero_sub_zero : (Scalar.ofNat 0 - Scalar.ofNat 0 : α) == Scalar.ofNat 0
  hundred_div_hundred : (Scalar.ofNat 100 / Scalar.ofNat 100 : α) == Scalar.ofNat 1

namespace SameNumber

variable {α : Type}

theorem refl [BEq α] (a : α) : SameNumber a a :=
  .inl rfl

variable [Scalar α] [LawfulScalar α] {a b c : α}

theorem beq (hab : SameNumber a b) (hbc : (b == c) = true) : (a == c) = true := by
  rcases hab with rfl | hab
  · exact hbc
  · exact LawfulScalar.beq_trans hab hbc

theorem trans (hab : SameNumber a b) (hbc : SameNumber b c) : SameNumber a c := by
  rcases hbc with rfl | hbc
  · exact hab
  · exact .inr (hab.beq hbc)

end SameNumber

section Vectors

variable {α : Type}

structure Vector2.Same [BEq α] (a b : Vector2 α) : Prop where
  x : SameNumber a.x b.x
  y : SameNumber a.y b.y

structure Vector3.Same [BEq α] (a b : Vector3 α) : Prop where
  x : SameNumber a.x b.x
  y : SameNumber a.y b.y
  z : SameNumber a.z b.z

theorem Vector2.Same.refl [BEq α] (a : Vector2 α) : a.Same a :=
  ⟨.refl _, .refl _⟩

theorem Vector2.same_of_beq [BEq α] {a b : Vector2 α} (h : (a == b) = true) : a.Same b := by
  obtain ⟨hx, hy⟩ := Bool.and_eq_true_iff.1 h
  exact ⟨.inr hx, .inr hy⟩

theorem Vector3.Same.refl [BEq α] (a : Vector3 α) : a.Same a :=
  ⟨.refl _, .refl _, .refl _⟩

theorem Vector3.Same.trans [Scalar α] [LawfulScalar α] {a b c : Vector3 α} (hab : a.Same b)
    (hbc : b.Same c) : a.Same c :=
  ⟨hab.x.trans hbc.x, hab.y.trans hbc.y, hab.z.trans hbc.z⟩

end Vectors

section Double

def SameValue (u v : UnpackedFloat) : Prop :=
  u = v ∨ ∃ s t, u = .zero s ∧ v = .zero t

namespace SameValue

variable {u v w z : UnpackedFloat}

theorem trans (huv : SameValue u v) (hvw : SameValue v w) : SameValue u w := by
  rcases huv with rfl | ⟨s, t, rfl, rfl⟩
  · exact hvw
  · rcases hvw with rfl | ⟨_, r, -, rfl⟩
    · exact .inr ⟨s, t, rfl, rfl⟩
    · exact .inr ⟨s, r, rfl, rfl⟩

theorem sub_left (huv : SameValue u v) (w : UnpackedFloat) :
    SameValue (UnpackedFloat.sub Format.binary64 u w) (UnpackedFloat.sub Format.binary64 v w) := by
  rcases huv with rfl | ⟨s, t, rfl, rfl⟩
  · exact .inl rfl
  · cases w with
    | zero r => cases s <;> cases t <;> cases r <;> exact .inr ⟨_, _, rfl, rfl⟩
    | _ => exact .inl rfl

theorem sub_right (u : UnpackedFloat) (hvw : SameValue v w) :
    SameValue (UnpackedFloat.sub Format.binary64 u v) (UnpackedFloat.sub Format.binary64 u w) := by
  rcases hvw with rfl | ⟨s, t, rfl, rfl⟩
  · exact .inl rfl
  · cases u with
    | zero r => cases s <;> cases t <;> cases r <;> exact .inr ⟨_, _, rfl, rfl⟩
    | _ => exact .inl rfl

theorem div (huv : SameValue u v) (w : UnpackedFloat) :
    SameValue (UnpackedFloat.div Format.binary64 u w) (UnpackedFloat.div Format.binary64 v w) := by
  rcases huv with rfl | ⟨s, t, rfl, rfl⟩
  · exact .inl rfl
  · cases w with
    | infinity r => exact .inr ⟨_, _, rfl, rfl⟩
    | finite r m e hm => exact .inr ⟨_, _, rfl, rfl⟩
    | _ => exact .inl rfl

end SameValue

theorem sameValue_of_compare {u v : UnpackedFloat} (h : u.compare v = some .eq) :
    SameValue u v := by
  cases u with
  | notANumber => cases h
  | infinity s =>
      cases v with
      | infinity t => cases s <;> cases t <;> simp_all [SameValue, UnpackedFloat.compare]
      | _ => cases s <;> cases h
  | zero s =>
      cases v with
      | zero t => exact .inr ⟨s, t, rfl, rfl⟩
      | notANumber => cases h
      | infinity t => cases t <;> cases h
      | finite t n f hn => cases t <;> cases h
  | finite s m e hm =>
      cases v with
      | zero t => cases s <;> cases h
      | notANumber => cases s <;> cases h
      | infinity t => cases s <;> cases t <;> cases h
      | finite t n f hn =>
          left
          cases s <;> cases t <;> simp_all [UnpackedFloat.compare, Ordering.then_eq_eq]

theorem unpacked_compare_self {u : UnpackedFloat} (h : u ≠ .notANumber) : u.compare u = some .eq := by
  cases u with
  | notANumber => exact absurd rfl h
  | infinity s => cases s <;> rfl
  | zero s => rfl
  | finite s m e hm => cases s <;> simp [UnpackedFloat.compare]

theorem beq_iff_sameValue {x y : Float} :
    (x == y) = true ↔
      SameValue x.toModel.unpack y.toModel.unpack ∧ x.toModel.unpack ≠ .notANumber := by
  change (x.toModel.unpack.compare y.toModel.unpack == some .eq) = true ↔ _
  rw [beq_iff_eq]
  constructor
  · intro h
    refine ⟨sameValue_of_compare h, fun hnan => ?_⟩
    rw [hnan] at h
    cases h
  · rintro ⟨heq | ⟨s, t, hs, ht⟩, hnan⟩
    · rw [← heq]
      exact unpacked_compare_self hnan
    · rw [hs, ht]
      rfl

theorem sameValue_of_sameNumber {x y : Float} (h : SameNumber x y) :
    SameValue x.toModel.unpack y.toModel.unpack := by
  rcases h with rfl | h
  · exact .inl rfl
  · exact (beq_iff_sameValue.1 h).1

theorem SameValue.pack {u v : UnpackedFloat} (h : SameValue u v) :
    SameNumber (Float.ofModel (.pack u)) (Float.ofModel (.pack v)) := by
  rcases h with rfl | ⟨s, t, rfl, rfl⟩
  · exact .refl _
  · right
    cases s <;> cases t <;> rfl

instance : LawfulScalar Float where
  beq_trans hab hbc := by
    obtain ⟨hab, hnan⟩ := beq_iff_sameValue.1 hab
    exact beq_iff_sameValue.2 ⟨hab.trans (beq_iff_sameValue.1 hbc).1, hnan⟩
  sub_same hab hcd :=
    (((sameValue_of_sameNumber hab).sub_left _).trans
      (SameValue.sub_right _ (sameValue_of_sameNumber hcd))).pack
  div_same hab c := ((sameValue_of_sameNumber hab).div c.toModel.unpack).pack
  zero_sub_zero := by decide +kernel
  hundred_div_hundred := by decide +kernel

end Double

section Exact

variable (K : Type) [DivisionRing K] [DecidableEq K]

abbrev exactScalar : Scalar K where
  add := (· + ·)
  sub := (· - ·)
  mul := (· * ·)
  div := (· / ·)
  beq a b := decide (a = b)
  ofNat n := n

theorem exactScalar_lawful [CharZero K] : @LawfulScalar K (exactScalar K) := by
  let scalar : Scalar K := exactScalar K
  have hbeq : ∀ {a b : K}, (a == b) = true ↔ a = b := decide_eq_true_iff
  have hsame : ∀ {a b : K}, SameNumber a b ↔ a = b := by
    intro a b
    rw [SameNumber, hbeq, or_self]
  constructor
  case beq_trans =>
    intro a b c hab hbc
    exact hbeq.2 ((hbeq.1 hab).trans (hbeq.1 hbc))
  case sub_same =>
    intro a b c d hab hcd
    rw [hsame.1 hab, hsame.1 hcd]
    exact .refl _
  case div_same =>
    intro a b hab c
    rw [hsame.1 hab]
    exact .refl _
  case zero_sub_zero =>
    refine hbeq.2 ?_
    change ((0 : ℕ) : K) - ((0 : ℕ) : K) = ((0 : ℕ) : K)
    rw [Nat.cast_zero, sub_zero]
  case hundred_div_hundred =>
    refine hbeq.2 ?_
    change ((100 : ℕ) : K) / ((100 : ℕ) : K) = ((1 : ℕ) : K)
    rw [Nat.cast_one]
    exact div_self (Nat.cast_ne_zero.2 (by decide))

end Exact

end Scenograph
