import Mathlib.Tactic.Positivity
import Scenograph.Proofs.Number.Scientific

namespace Scenograph

theorem zpow_toNat {b : ℚ} (hb : b ≠ 0) (k : Int) : b ^ k = b ^ k.toNat / b ^ (-k).toNat := by
  rw [← zpow_natCast, ← zpow_natCast, ← zpow_sub₀ hb]
  congr 1
  omega

namespace Neighbourhood

variable (n : Neighbourhood) (k : Int)

def common : ℚ :=
  2 ^ (2 - n.exponent).toNat * 10 ^ (-k).toNat

theorem common_pos : 0 < n.common k := by
  unfold common
  positivity

theorem scaled_eq (quarters : Nat) :
    (quarters * 2 ^ (n.exponent - 2) : ℚ) * n.common k = n.scaled k quarters := by
  have hneg : -(n.exponent - 2) = 2 - n.exponent := by ring
  rw [zpow_toNat (by norm_num), hneg, common, scaled, Nat.pow_eq, Nat.pow_eq]
  push_cast
  field_simp

theorem point_eq (a : Nat) : (a * 10 ^ k : ℚ) * n.common k = a * n.divisor k := by
  rw [zpow_toNat (by norm_num), common, divisor, Nat.pow_eq, Nat.pow_eq]
  push_cast
  field_simp

theorem scaled_le_point (quarters a : Nat) : n.scaled k quarters ≤ a * n.divisor k
    ↔ (quarters * 2 ^ (n.exponent - 2) : ℚ) ≤ a * 10 ^ k := by
  rw [← mul_le_mul_iff_left₀ (n.common_pos k), scaled_eq, point_eq]
  exact_mod_cast Iff.rfl

theorem point_le_scaled (quarters a : Nat) : a * n.divisor k ≤ n.scaled k quarters
    ↔ (a * 10 ^ k : ℚ) ≤ quarters * 2 ^ (n.exponent - 2) := by
  rw [← mul_le_mul_iff_left₀ (n.common_pos k), scaled_eq, point_eq]
  exact_mod_cast Iff.rfl

theorem covers_iff (a : Nat) : n.covers k a = true ↔ n.Holds (a * 10 ^ k) := by
  have hlow := n.scaled_le_point k n.low a
  have hlow' := n.point_le_scaled k n.low a
  have hhigh := n.point_le_scaled k n.high a
  have hhigh' := n.scaled_le_point k n.high a
  simp only [covers, Holds, lowest, highest]
  by_cases heven : n.significand % 2 = 0
  · simp only [heven, if_true, Bool.and_eq_true, decide_eq_true_eq, hlow, hhigh, true_and]
    constructor
    · exact .inr
    · rintro (⟨hl, hh⟩ | h)
      · exact ⟨hl.le, hh.le⟩
      · exact h
  · simp only [heven, if_false, Bool.and_eq_true, decide_eq_true_eq, ← not_le, hlow', hhigh',
      false_and, or_false]

theorem covers_of_onGrid {tie : Tie} {a : Nat} (h : n.onGrid tie k = some a) :
    n.covers k a = true := by
  simp only [onGrid] at h
  split at h
  · next hbelow habove =>
      cases tie <;> split_ifs at h <;> cases h <;> assumption
  · next hbelow _ =>
      cases h
      exact hbelow
  · next _ habove =>
      cases h
      exact habove
  · cases h

theorem search_covers {tie : Tie} {fuel : Nat} {k : Int} {j : Nat} (hj : j < fuel)
    (h : n.onGrid tie (k - j) ≠ none) :
    n.Holds (n.search tie fuel k).value := by
  -- On the fuel, with the distance to the grid that has a point falling at each step.
  induction fuel generalizing k j with
  | zero => cases hj
  | succ fuel ih =>
      rw [search]
      split
      · next a ha => exact (n.covers_iff k a).1 (n.covers_of_onGrid k ha)
      · next hnone =>
          cases j with
          | zero => exact absurd (by simpa using hnone) h
          | succ j =>
              refine ih (Nat.lt_of_succ_lt_succ hj) ?_
              have hstep : k - 1 - (j : Int) = k - ((j + 1 : Nat) : Int) := by omega
              rw [hstep]
              exact h

theorem onGrid_fine {s : Nat} {t : Int} (hs : 0 < s) (tie : Tie) {k : Int}
    (hk : (10 : ℚ) ^ k < 2 ^ (t - 1)) : (doubleAt s t).onGrid tie k ≠ none := by
  obtain ⟨n, hn⟩ : ∃ n, n = doubleAt s t := ⟨_, rfl⟩
  obtain ⟨below, hbelow⟩ : ∃ below, below = n.scaled k (4 * n.significand) / n.divisor k := ⟨_, rfl⟩
  have hself : ((4 * n.significand : Nat) * 2 ^ (n.exponent - 2) : ℚ) = s * 2 ^ t := by
    rw [hn]
    simp only [of, quarter_zpow]
    push_cast
    ring
  have hdivisor : 0 < n.divisor k := by
    rw [divisor, Nat.pow_eq, Nat.pow_eq]
    positivity
  -- The grid points on both sides of the double are one step apart.
  have hat : (below * 10 ^ k : ℚ) ≤ s * 2 ^ t := by
    rw [← hself, ← point_le_scaled, hbelow]
    exact Nat.div_mul_le_self _ _
  have hnext : (s * 2 ^ t : ℚ) < (below + 1 : Nat) * 10 ^ k := by
    rw [← hself, ← not_le, ← point_le_scaled, hbelow, not_le, mul_comm _ (n.divisor k)]
    exact Nat.lt_mul_div_succ _ hdivisor
  have hcovers : n.covers k (below + 1) = true := by
    have hhalf : (2 : ℚ) ^ (t - 1) = 1 / 2 * 2 ^ t := by
      rw [zpow_sub₀ (by norm_num)]
      norm_num
      ring
    rw [covers_iff, hn]
    left
    constructor
    · rcases (holds_self hs t) with ⟨hlow, -⟩ | ⟨-, hlow, -⟩ <;> linarith
    · rw [highest_double]
      push_cast
      linarith
  rw [← hn]
  simp only [onGrid, ← hbelow, hcovers]
  cases n.covers k below
  · simp
  · cases tie <;> split_ifs <;> simp

end Neighbourhood

theorem ten_zpow_le {a b : Int} (hpos : 94 * a ≤ 28 * b) (hneg : 93 * a ≤ 28 * b) :
    (10 : ℚ) ^ a ≤ 2 ^ b := by
  have hpower : ((10 : ℚ) ^ a) ^ 28 ≤ (2 ^ b) ^ 28 := by
    have hten : ((10 : ℚ) ^ a) ^ 28 = (10 ^ 28) ^ a := by
      rw [← zpow_natCast, ← zpow_natCast, ← zpow_mul, ← zpow_mul, mul_comm]
    have htwo : ((2 : ℚ) ^ b) ^ 28 = 2 ^ (28 * b) := by
      rw [mul_comm, zpow_mul, ← zpow_natCast]
      rfl
    rw [hten, htwo]
    by_cases ha : 0 ≤ a
    · calc ((10 : ℚ) ^ 28) ^ a ≤ (2 ^ (94 : Int)) ^ a :=
            zpow_le_zpow_left₀ ha (by norm_num) (by norm_num)
        _ = 2 ^ (94 * a) := (zpow_mul 2 94 a).symm
        _ ≤ 2 ^ (28 * b) := zpow_le_zpow_right₀ (by norm_num) hpos
    · calc ((10 : ℚ) ^ 28) ^ a ≤ (2 ^ (93 : Int)) ^ a := by
            rw [← inv_le_inv₀ (by positivity) (by positivity), ← zpow_neg, ← zpow_neg]
            exact zpow_le_zpow_left₀ (by omega) (by norm_num) (by norm_num)
        _ = 2 ^ (93 * a) := (zpow_mul 2 93 a).symm
        _ ≤ 2 ^ (28 * b) := zpow_le_zpow_right₀ (by norm_num) hneg
  exact le_of_pow_le_pow_left₀ (by norm_num) (two_zpow_pos b).le hpower

theorem ofDouble_holds {s : Nat} {t : Int} (h : IsDouble s t) (tie : Tie) :
    (doubleAt s t).Holds (Decimal.ofDouble tie s t).value := by
  have hlog : s.log2 ≤ 52 := Nat.le_of_lt_succ ((Nat.log2_lt h.pos.ne').2 h.lt)
  have hfloor := h.floor
  have htop := h.top
  have hstep : (10 : ℚ) ^ ((s.log2 + t) * 30103 / 100000 + 2 - (23 : Nat)) < 2 ^ (t - 1) :=
    (ten_zpow_le (b := t - 2) (by omega) (by omega)).trans_lt (two_zpow_lt_iff.2 (by omega))
  rw [Decimal.ofDouble, Neighbourhood.shortest]
  have hsome : (doubleAt s t).significand ≠ 0 := h.pos.ne'
  rw [if_neg hsome]
  exact Neighbourhood.search_covers _ (by norm_num) (Neighbourhood.onGrid_fine h.pos tie hstep)

end Scenograph
