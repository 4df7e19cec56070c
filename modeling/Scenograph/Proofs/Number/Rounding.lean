import Mathlib
import Scenograph.Number.Decimal

namespace Scenograph

open Float.Model Float.Model.UnpackedFloat

def Places (m : Nat) : Accuracy → ℚ → Prop
  | .exact, q => q = m
  | .inexact .lt, q => m < q ∧ q < m + 1 / 2
  | .inexact .eq, q => q = m + 1 / 2
  | .inexact .gt, q => m + 1 / 2 < q ∧ q < m + 1

def Stands (em : ExtendedMantissa) (q : ℚ) : Prop :=
  Places em.mantissa em.accuracy q

theorem stands_ofMantissa {m : Nat} {accuracy : Accuracy} {q : ℚ} (h : Places m accuracy q) :
    Stands (ExtendedMantissa.ofMantissaAndAccuracy m accuracy) q := by
  cases accuracy with
  | exact => exact h
  | inexact order => cases order <;> exact h

theorem Stands.shiftRightOne {em : ExtendedMantissa} {q : ℚ} (h : Stands em q) :
    Stands em.shiftRightOne (q / 2) := by
  obtain ⟨m, round, sticky⟩ := em
  obtain ⟨k, rfl | rfl⟩ := Nat.even_or_odd' m
  · have hhalf : 2 * k / 2 = k := by omega
    have hbit : (2 * k % 2 != 0) = false := by simp
    cases round <;> cases sticky <;>
      simp only [Stands, ExtendedMantissa.accuracy, ExtendedMantissa.shiftRightOne, Places, hhalf,
        hbit, Bool.or_true, Bool.or_false, Nat.cast_mul, Nat.cast_ofNat] at h ⊢ <;> grind
  · have hhalf : (2 * k + 1) / 2 = k := by omega
    have hbit : ((2 * k + 1) % 2 != 0) = true := by simp
    cases round <;> cases sticky <;>
      simp only [Stands, ExtendedMantissa.accuracy, ExtendedMantissa.shiftRightOne, Places, hhalf,
        hbit, Bool.or_true, Bool.or_false, Nat.cast_add, Nat.cast_mul, Nat.cast_ofNat,
        Nat.cast_one] at h ⊢ <;> grind

theorem Stands.shiftRight {em : ExtendedMantissa} {q : ℚ} (h : Stands em q) (n : Nat) :
    Stands (em >>> n) (q / 2 ^ n) := by
  induction n with
  | zero =>
      rw [pow_zero, div_one]
      exact h
  | succ n ih =>
      have hnext : em >>> (n + 1) = (em >>> n).shiftRightOne := rfl
      rw [hnext, pow_succ, ← div_div]
      exact ih.shiftRightOne

def Nearest (n : Nat) (q : ℚ) : Prop :=
  (n - 1 / 2 < q ∧ q < n + 1 / 2) ∨ (n % 2 = 0 ∧ n - 1 / 2 ≤ q ∧ q ≤ n + 1 / 2)

theorem Nearest.bounds {n : Nat} {q : ℚ} (h : Nearest n q) : n - 1 / 2 ≤ q ∧ q ≤ n + 1 / 2 := by
  rcases h with ⟨hlow, hhigh⟩ | ⟨-, hlow, hhigh⟩
  · exact ⟨hlow.le, hhigh.le⟩
  · exact ⟨hlow, hhigh⟩

theorem Nearest.le {n s : Nat} {q : ℚ} (hn : Nearest n q) (hs : Nearest s q) : n ≤ s := by
  by_contra hlt
  have hstep : (s : ℚ) + 1 ≤ n := by exact_mod_cast (by omega : s + 1 ≤ n)
  -- Two candidates can only meet half way between them, and then both are even.
  have hmeet : (n : ℚ) = s + 1 := le_antisymm (by linarith [hn.bounds.1, hs.bounds.2]) hstep
  have hnext : n = s + 1 := by exact_mod_cast hmeet
  rcases hn with ⟨hlow, -⟩ | ⟨hneven, hlow, -⟩
  · linarith [hs.bounds.2]
  · rcases hs with ⟨-, hhigh⟩ | ⟨hseven, -, -⟩
    · linarith
    · omega

theorem Nearest.unique {n s : Nat} {q : ℚ} (hn : Nearest n q) (hs : Nearest s q) : n = s :=
  le_antisymm (hn.le hs) (hs.le hn)

theorem Stands.nearest {em : ExtendedMantissa} {q : ℚ} (h : Stands em q) :
    Nearest em.roundedMantissa q := by
  obtain ⟨m, round, sticky⟩ := em
  cases round <;> cases sticky <;>
    simp only [Stands, ExtendedMantissa.accuracy, Places] at h <;>
    simp only [Nearest, ExtendedMantissa.roundedMantissa, ExtendedMantissa.accuracy,
      Accuracy.roundToNearestEven, Nat.cast_add, Nat.cast_one]
  · left
    constructor <;> linarith
  · left
    constructor <;> linarith
  · right
    obtain ⟨k, rfl | rfl⟩ := Nat.even_or_odd' m
    · have hbit : 2 * k % 2 = 0 := by omega
      rw [hbit]
      push_cast at h ⊢
      exact ⟨by omega, by linarith, by linarith⟩
    · have hbit : (2 * k + 1) % 2 = 1 := by omega
      rw [hbit]
      push_cast at h ⊢
      exact ⟨by omega, by linarith, by linarith⟩
  · left
    constructor <;> linarith

structure Canonical (s : Nat) (t : Int) : Prop where
  pos : 0 < s
  lt : s < 2 ^ 53
  floor : -1074 ≤ t
  normal : 2 ^ 52 ≤ s ∨ t = -1074

abbrev doubleAt (s : Nat) (t : Int) : Neighbourhood :=
  .of s t (Nat.pow 2 52) (-1074)

theorem two_zpow_pos (t : Int) : (0 : ℚ) < 2 ^ t :=
  zpow_pos (by norm_num) t

namespace Neighbourhood

def lowest (n : Neighbourhood) : ℚ :=
  n.low * 2 ^ (n.exponent - 2)

def highest (n : Neighbourhood) : ℚ :=
  n.high * 2 ^ (n.exponent - 2)

def Holds (n : Neighbourhood) (v : ℚ) : Prop :=
  (n.lowest < v ∧ v < n.highest) ∨ (n.significand % 2 = 0 ∧ n.lowest ≤ v ∧ v ≤ n.highest)

theorem Holds.bounds {n : Neighbourhood} {v : ℚ} (h : n.Holds v) :
    n.lowest ≤ v ∧ v ≤ n.highest := by
  rcases h with ⟨hlow, hhigh⟩ | ⟨-, hlow, hhigh⟩
  · exact ⟨hlow.le, hhigh.le⟩
  · exact ⟨hlow, hhigh⟩

section Double

variable {s : Nat} {t : Int} {v : ℚ}

theorem quarter_zpow (t : Int) : (2 : ℚ) ^ (t - 2) = 2 ^ t / 4 := by
  rw [zpow_sub₀ (by norm_num)]
  norm_num

theorem highest_double : (doubleAt s t).highest = (s + 1 / 2) * 2 ^ t := by
  simp only [highest, of, Nat.cast_add, Nat.cast_mul, Nat.cast_ofNat, quarter_zpow]
  ring

theorem lowest_double (hs : 0 < s) (h : ¬(s = 2 ^ 52 ∧ -1074 < t)) :
    (doubleAt s t).lowest = (s - 1 / 2) * 2 ^ t := by
  have hle : 2 ≤ 4 * s := by omega
  simp only [lowest, of, Nat.pow_eq, if_neg h, Nat.cast_sub hle, Nat.cast_mul, Nat.cast_ofNat,
    quarter_zpow]
  ring

theorem lowest_power (h : s = 2 ^ 52 ∧ -1074 < t) :
    (doubleAt s t).lowest = (s - 1 / 4) * 2 ^ t := by
  have hle : 1 ≤ 4 * s := by omega
  simp only [lowest, of, Nat.pow_eq, if_pos h, Nat.cast_sub hle, Nat.cast_mul, Nat.cast_ofNat,
    Nat.cast_one, quarter_zpow]
  ring

theorem lowest_ge (hs : 0 < s) : (s - 1 / 2 : ℚ) * 2 ^ t ≤ (doubleAt s t).lowest := by
  by_cases h : s = 2 ^ 52 ∧ -1074 < t
  · rw [lowest_power h]
    exact mul_le_mul_of_nonneg_right (by linarith) (two_zpow_pos t).le
  · rw [lowest_double hs h]

theorem Holds.nearest (hs : 0 < s) (h : (doubleAt s t).Holds v) : Nearest s (v / 2 ^ t) := by
  have hpos := two_zpow_pos t
  have hlow := lowest_ge (t := t) hs
  have hhigh := highest_double (s := s) (t := t)
  rcases h with ⟨hl, hh⟩ | ⟨heven, hl, hh⟩
  · left
    rw [lt_div_iff₀ hpos, div_lt_iff₀ hpos]
    exact ⟨hlow.trans_lt hl, hhigh ▸ hh⟩
  · right
    rw [le_div_iff₀ hpos, div_le_iff₀ hpos]
    exact ⟨heven, hlow.trans hl, hhigh ▸ hh⟩

theorem Holds.nearest_below (h : (doubleAt (2 ^ 52) t).Holds v) (ht : -1074 < t)
    (hbelow : v < 2 ^ (52 + t)) : Nearest (2 ^ 53) (v / 2 ^ (t - 1)) := by
  have hhalf : (2 : ℚ) ^ t = 2 * 2 ^ (t - 1) := by
    rw [← zpow_one_add₀ (by norm_num)]
    congr 1
    ring
  have hlow : (2 ^ 52 - 1 / 4) * 2 ^ t ≤ v := by
    have hlowest := lowest_power (s := 2 ^ 52) ⟨rfl, ht⟩
    push_cast at hlowest
    exact hlowest ▸ h.bounds.1
  rw [zpow_add₀ (by norm_num), hhalf] at hbelow
  rw [hhalf] at hlow
  right
  rw [le_div_iff₀ (two_zpow_pos _), div_le_iff₀ (two_zpow_pos _)]
  have hpos := two_zpow_pos (t - 1)
  norm_num at hbelow hlow ⊢
  constructor <;> linarith

theorem Holds.lt_zpow (hc : Canonical s t) (h : (doubleAt s t).Holds v) : v < 2 ^ (53 + t) := by
  have hs : (s : ℚ) + 1 ≤ 2 ^ 53 := by exact_mod_cast hc.lt
  calc v ≤ (s + 1 / 2) * 2 ^ t := highest_double ▸ h.bounds.2
    _ < 2 ^ (53 : Int) * 2 ^ t := mul_lt_mul_of_pos_right (by norm_num; linarith) (two_zpow_pos t)
    _ = 2 ^ (53 + t) := (zpow_add₀ (by norm_num) 53 t).symm

theorem Holds.zpow_lt (hs : 2 ^ 52 ≤ s) (h : (doubleAt s t).Holds v) : 2 ^ (51 + t) < v := by
  have hs' : (2 : ℚ) ^ 52 ≤ s := by exact_mod_cast hs
  calc (2 : ℚ) ^ (51 + t) = 2 ^ (51 : Int) * 2 ^ t := zpow_add₀ (by norm_num) 51 t
    _ < (s - 1 / 2) * 2 ^ t := mul_lt_mul_of_pos_right (by norm_num; linarith) (two_zpow_pos t)
    _ ≤ v := (lowest_ge (by omega)).trans h.bounds.1

end Double

end Neighbourhood

theorem target_eq (T : Int) : Format.binary64.targetExponent T = max (T - 53) (-1074) := by
  simp [Format.targetExponent, Format.mantissaBits, Format.minExponent]

section Target

variable {s : Nat} {t T : Int} {v : ℚ}

theorem two_zpow_lt_iff {a b : Int} : (2 : ℚ) ^ a < 2 ^ b ↔ a < b :=
  zpow_lt_zpow_iff_right₀ (by norm_num)

/-- A number in the neighbourhood is shifted to the exponent of the double, or, just below the least
significand of a binade, to the one before. -/
theorem target_of_holds (hc : Canonical s t) (h : (doubleAt s t).Holds v) (hhigh : v < 2 ^ T)
    (hlow : 2 ^ (T - 1) ≤ v ∨ T ≤ -1073) :
    max (T - 53) (-1074) = t
      ∨ max (T - 53) (-1074) = t - 1 ∧ s = 2 ^ 52 ∧ -1074 < t ∧ v < 2 ^ (52 + t) := by
  have hfloor := hc.floor
  have habove : 2 ^ (T - 1) ≤ v → T - 1 < 53 + t := fun hT =>
    two_zpow_lt_iff.1 (hT.trans_lt (h.lt_zpow hc))
  by_cases ht : t = -1074
  · left
    rcases hlow with hlow | hlow
    · have := habove hlow
      omega
    · omega
  · have hs : 2 ^ 52 ≤ s := hc.normal.resolve_right ht
    have hbelow : 51 + t < T := two_zpow_lt_iff.1 ((h.zpow_lt hs).trans hhigh)
    have hT : T - 1 < 53 + t := habove (hlow.resolve_right (by omega))
    by_cases hsame : T = 53 + t
    · left
      omega
    · obtain rfl : T = 52 + t := by omega
      right
      refine ⟨by omega, ?_, by omega, hhigh⟩
      by_contra hne
      have hs' : (2 : ℚ) ^ 52 + 1 ≤ s := by exact_mod_cast (by omega : 2 ^ 52 + 1 ≤ s)
      have hlowest :=
        Neighbourhood.lowest_double hc.pos (fun hp : s = 2 ^ 52 ∧ -1074 < t => hne hp.1)
      have : (2 : ℚ) ^ (52 + t) ≤ v := by
        calc (2 : ℚ) ^ (52 + t) = 2 ^ (52 : Int) * 2 ^ t := zpow_add₀ (by norm_num) 52 t
          _ ≤ (s - 1 / 2) * 2 ^ t :=
            mul_le_mul_of_nonneg_right (by norm_num; linarith) (two_zpow_pos t).le
          _ ≤ v := hlowest ▸ h.bounds.1
      linarith

end Target

theorem Places.bounds {m : Nat} {accuracy : Accuracy} {q : ℚ} (h : Places m accuracy q) :
    m ≤ q ∧ q < m + 1 := by
  cases accuracy with
  | exact =>
      simp only [Places] at h
      constructor <;> linarith
  | inexact order =>
      cases order <;> simp only [Places] at h <;> constructor <;> linarith

section Round

variable {m : Nat} {e : Int} {accuracy : Accuracy} {q v : ℚ}

theorem Places.lt_total (h : Places m accuracy q) : q * 2 ^ e < 2 ^ totalExponent m e := by
  have hm : (m : ℚ) + 1 ≤ 2 ^ ((m.log2 : Int) + 1) := by
    have hlog : m + 1 ≤ 2 ^ (m.log2 + 1) := Nat.lt_log2_self
    exact_mod_cast hlog
  calc q * 2 ^ e < (m + 1) * 2 ^ e := mul_lt_mul_of_pos_right h.bounds.2 (two_zpow_pos e)
    _ ≤ 2 ^ ((m.log2 : Int) + 1) * 2 ^ e := mul_le_mul_of_nonneg_right hm (two_zpow_pos e).le
    _ = 2 ^ totalExponent m e := (zpow_add₀ (by norm_num) _ _).symm

theorem Places.total_le (h : Places m accuracy q) (hm : m ≠ 0) :
    2 ^ (totalExponent m e - 1) ≤ q * 2 ^ e := by
  have hlog : (2 : ℚ) ^ (m.log2 : Int) ≤ m := by exact_mod_cast Nat.log2_self_le hm
  calc (2 : ℚ) ^ (totalExponent m e - 1) = 2 ^ (m.log2 : Int) * 2 ^ e := by
        rw [← zpow_add₀ (by norm_num), totalExponent]
        congr 1
        ring
    _ ≤ q * 2 ^ e := mul_le_mul_of_nonneg_right (hlog.trans h.bounds.1) (two_zpow_pos e).le

theorem shiftToTarget_stands (h : Places m accuracy q) {E : Int}
    (hE : Format.binary64.targetExponent (totalExponent m e) = E) (he : e ≤ E) :
    ∃ em, shiftToTargetExponent Format.binary64 m e accuracy = (em, E)
      ∧ Stands em (q * 2 ^ e / 2 ^ E) := by
  refine ⟨ExtendedMantissa.ofMantissaAndAccuracy m accuracy >>> (E - e).toNat, ?_, ?_⟩
  · have hexp : e + ((E - e).toNat : Int) = E := by omega
    rw [shiftToTargetExponent, hE, shiftToExponent, hexp]
  · have hpow : (2 : ℚ) ^ E = 2 ^ e * 2 ^ (E - e).toNat := by
      rw [← zpow_natCast, ← zpow_add₀ (by norm_num)]
      congr 1
      omega
    have hne := (two_zpow_pos e).ne'
    have hvalue : q * 2 ^ e / 2 ^ E = q / 2 ^ (E - e).toNat := by
      rw [hpow]
      field_simp
    rw [hvalue]
    exact (stands_ofMantissa h).shiftRight _

theorem shiftToTarget_kept {n : Nat} (hn : n < 2 ^ 53) (he : -1074 ≤ e) :
    shiftToTargetExponent Format.binary64 n e .exact = (⟨n, false, false⟩, e) := by
  have hlog : n.log2 ≤ 52 := by
    by_cases hzero : n = 0
    · simp [hzero]
    · exact Nat.le_of_lt_succ ((Nat.log2_lt hzero).2 hn)
  have hshift : (Format.binary64.targetExponent (totalExponent n e) - e).toNat = 0 := by
    rw [target_eq, totalExponent]
    omega
  rw [shiftToTargetExponent, shiftToExponent, hshift]
  simp only [Nat.cast_zero, add_zero]
  rfl

theorem shiftToTarget_carry (he : -1074 ≤ e) :
    shiftToTargetExponent Format.binary64 (2 ^ 53) e .exact = (⟨2 ^ 52, false, false⟩, e + 1) := by
  have hshift : (Format.binary64.targetExponent (totalExponent (2 ^ 53) e) - e).toNat = 1 := by
    rw [target_eq, totalExponent, Nat.log2_two_pow]
    omega
  rw [shiftToTargetExponent, shiftToExponent, hshift]
  rfl

theorem roundWithAccuracy_eq {s : Nat} {t : Int} (hc : Canonical s t)
    (hv : (doubleAt s t).Holds (q * 2 ^ e)) (h : Places m accuracy q)
    (he : e ≤ Format.binary64.targetExponent (totalExponent m e)) (sign : Sign) :
    roundWithAccuracy Format.binary64 sign m e accuracy = .finite sign s t hc.pos := by
  have hlow : 2 ^ (totalExponent m e - 1) ≤ q * 2 ^ e ∨ totalExponent m e ≤ -1073 := by
    by_cases hm : m = 0
    · right
      subst hm
      rw [target_eq, totalExponent] at he
      simp only [Nat.log2_zero, totalExponent] at he ⊢
      omega
    · exact .inl (h.total_le hm)
  have hfloor := hc.floor
  rcases target_of_holds hc hv h.lt_total hlow with htarget | ⟨htarget, rfl, ht, hbelow⟩
  · rw [target_eq, htarget] at he
    obtain ⟨em, hshift, hstands⟩ := shiftToTarget_stands h ((target_eq _).trans htarget) he
    have hround : em.roundedMantissa = s := hstands.nearest.unique (hv.nearest hc.pos)
    rw [roundWithAccuracy, hshift]
    simp only [hround, shiftToTarget_kept hc.lt hfloor, hc.pos.ne', dif_neg, not_false_eq_true]
  · -- Rounding up carries into the next binade, so the mantissa is shifted once more.
    rw [target_eq, htarget] at he
    obtain ⟨em, hshift, hstands⟩ := shiftToTarget_stands h ((target_eq _).trans htarget) he
    have hround : em.roundedMantissa = 2 ^ 53 :=
      hstands.nearest.unique (hv.nearest_below ht hbelow)
    rw [roundWithAccuracy, hshift]
    simp only [hround, shiftToTarget_carry (by omega : -1074 ≤ t - 1)]
    simp

end Round

end Scenograph
