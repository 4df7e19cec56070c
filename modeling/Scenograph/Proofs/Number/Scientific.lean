import Mathlib.Tactic.Positivity
import Scenograph.Proofs.Number.Double

namespace Scenograph

open Float.Model Float.Model.UnpackedFloat

theorem places_exact (m : Nat) : Places m .exact m :=
  rfl

theorem places_quotient (n : Nat) {d : Nat} (hd : 0 < d) :
    Places (n / d) (accuracyOfFraction (n % d) d) (n / d) := by
  have hd' : (0 : ℚ) < d := by exact_mod_cast hd
  have hdivide : (n / d : ℚ) = (n / d : Nat) + (n % d : Nat) / d := by
    rw [eq_comm, add_div' _ _ _ hd'.ne', div_left_inj' hd'.ne']
    exact_mod_cast Nat.div_add_mod' n d
  have hrest : ((n % d : Nat) / d : ℚ) < 1 := by
    rw [div_lt_one hd']
    exact_mod_cast Nat.mod_lt n hd
  unfold accuracyOfFraction
  split
  · next hzero => simp [Places, hdivide, hzero]
  · next hsome =>
      have hpos : (0 : ℚ) < (n % d : Nat) / d := by
        have : (0 : ℚ) < (n % d : Nat) := by exact_mod_cast Nat.pos_of_ne_zero hsome
        positivity
      rcases lt_trichotomy (2 * (n % d)) d with hlt | heq | hgt
      · have hhalf : ((n % d : Nat) / d : ℚ) < 1 / 2 := by
          rw [div_lt_div_iff₀ hd' (by norm_num)]
          exact_mod_cast (by omega : n % d * 2 < 1 * d)
        rw [Nat.compare_eq_lt.2 hlt]
        simp only [Places, hdivide]
        constructor <;> linarith
      · have hhalf : ((n % d : Nat) / d : ℚ) = 1 / 2 := by
          rw [div_eq_div_iff hd'.ne' (by norm_num)]
          exact_mod_cast (by omega : n % d * 2 = 1 * d)
        rw [Nat.compare_eq_eq.2 heq]
        simp only [Places, hdivide, hhalf]
      · have hhalf : (1 / 2 : ℚ) < (n % d : Nat) / d := by
          rw [div_lt_div_iff₀ (by norm_num) hd']
          exact_mod_cast (by omega : 1 * d < n % d * 2)
        rw [Nat.compare_eq_gt.2 hgt]
        simp only [Places, hdivide]
        constructor <;> linarith

section Arithmetic

variable {s : Nat} {t : Int} (hc : Canonical s t) {m₁ m₂ : Nat} {e₁ e₂ : Int}
  (h₁ : 0 < m₁) (h₂ : 0 < m₂)

include hc

theorem mul_eq (hv : (doubleAt s t).Holds (m₁ * 2 ^ e₁ * (m₂ * 2 ^ e₂))) (hbits : 52 ≤ m₁.log2) :
    UnpackedFloat.mul Format.binary64 (.finite .positive m₁ e₁ h₁) (.finite .positive m₂ e₂ h₂)
      = .finite .positive s t hc.pos := by
  have hvalue : (m₁ * 2 ^ e₁ * (m₂ * 2 ^ e₂) : ℚ) = (m₁ * m₂ : Nat) * 2 ^ (e₁ + e₂) := by
    rw [zpow_add₀ (by norm_num)]
    push_cast
    ring
  have hlog : 52 ≤ (m₁ * m₂).log2 := by
    rw [Nat.le_log2 (Nat.mul_pos h₁ h₂).ne']
    exact ((Nat.le_log2 h₁.ne').1 hbits).trans (Nat.le_mul_of_pos_right _ h₂)
  have htarget : e₁ + e₂ ≤ Format.binary64.targetExponent (totalExponent (m₁ * m₂) (e₁ + e₂)) := by
    rw [target_eq, totalExponent]
    omega
  exact roundWithAccuracy_eq hc (hvalue ▸ hv) (places_exact _) htarget .positive

theorem div_eq (hv : (doubleAt s t).Holds (m₁ * 2 ^ e₁ / (m₂ * 2 ^ e₂))) :
    UnpackedFloat.div Format.binary64 (.finite .positive m₁ e₁ h₁) (.finite .positive m₂ e₂ h₂)
      = .finite .positive s t hc.pos := by
  -- The quotient is taken at an exponent low enough for all the bits of the result.
  obtain ⟨E, hE⟩ : ∃ E, E = min (e₁ - e₂)
      (Format.binary64.targetExponent (totalExponent m₁ e₁ - totalExponent m₂ e₂)) := ⟨_, rfl⟩
  obtain ⟨n, hn⟩ : ∃ n, n = m₁ <<< (e₁ - e₂ - E).toNat := ⟨_, rfl⟩
  have hcore : divCore Format.binary64 m₁ e₁ m₂ e₂
      = (n / m₂, E, accuracyOfFraction (n % m₂) m₂) := by
    rw [divCore, ← hE, ← hn]
  have hvalue : (m₁ * 2 ^ e₁ / (m₂ * 2 ^ e₂) : ℚ) = n / m₂ * 2 ^ E := by
    have hshift : (n : ℚ) * 2 ^ E = m₁ * (2 ^ e₁ / 2 ^ e₂) := by
      rw [hn, Nat.shiftLeft_eq, ← zpow_sub₀ (by norm_num)]
      push_cast
      rw [mul_assoc, ← zpow_natCast, ← zpow_add₀ (by norm_num)]
      congr 2
      omega
    rw [div_mul_eq_mul_div, hshift, mul_div_assoc', div_div, mul_comm (m₂ : ℚ)]
  have hplaces := places_quotient n h₂
  have hbelow : totalExponent m₁ e₁ - totalExponent m₂ e₂ - 1 < totalExponent (n / m₂) E := by
    have hnum := (places_exact m₁).total_le (e := e₁) h₁.ne'
    have hden := (places_exact m₂).lt_total (e := e₂)
    have hden' : (0 : ℚ) < m₂ * 2 ^ e₂ := mul_pos (by exact_mod_cast h₂) (two_zpow_pos e₂)
    rw [← two_zpow_lt_iff]
    calc (2 : ℚ) ^ (totalExponent m₁ e₁ - totalExponent m₂ e₂ - 1)
        = 2 ^ (totalExponent m₁ e₁ - 1) / 2 ^ totalExponent m₂ e₂ := by
          rw [← zpow_sub₀ (by norm_num)]
          congr 1
          ring
      _ < m₁ * 2 ^ e₁ / (m₂ * 2 ^ e₂) :=
          div_lt_div₀' hnum hden ((two_zpow_pos _).trans_le hnum) hden'
      _ < 2 ^ totalExponent (n / m₂) E := hvalue ▸ hplaces.lt_total
  have htarget : E ≤ Format.binary64.targetExponent (totalExponent (n / m₂) E) := by
    rw [target_eq] at hE ⊢
    omega
  simp only [UnpackedFloat.div, hcore]
  exact roundWithAccuracy_eq hc (hvalue ▸ hv) hplaces htarget .positive

end Arithmetic

def double {s : Nat} {t : Int} (h : IsDouble s t) (sign : Sign) : Float :=
  .ofModel (.pack (.finite sign s t h.pos))

theorem double_unpack {s : Nat} {t : Int} (h : IsDouble s t) (sign : Sign) :
    (double h sign).toModel.unpack = .finite sign s t h.pos :=
  unpack_pack h sign

def Exactly (x : Float) (q : ℚ) : Prop :=
  ∃ s t, ∃ h : IsDouble s t, x = double h .positive ∧ s * 2 ^ t = q ∧ s.log2 = 52

theorem holds_self {s : Nat} (hs : 0 < s) (t : Int) : (doubleAt s t).Holds (s * 2 ^ t) := by
  have hpos := two_zpow_pos t
  left
  constructor
  · by_cases h : s = 2 ^ 52 ∧ -1074 < t
    · rw [Neighbourhood.lowest_power h]
      exact mul_lt_mul_of_pos_right (by linarith) hpos
    · rw [Neighbourhood.lowest_double hs h]
      exact mul_lt_mul_of_pos_right (by linarith) hpos
  · rw [Neighbourhood.highest_double]
    exact mul_lt_mul_of_pos_right (by linarith) hpos

theorem scaled_bounds {n : Nat} (hpos : 0 < n) (hlog : n.log2 ≤ 52) :
    2 ^ 52 ≤ n * 2 ^ (52 - n.log2) ∧ n * 2 ^ (52 - n.log2) < 2 ^ 53 := by
  obtain ⟨hlow, hhigh⟩ := (Nat.log2_eq_iff hpos.ne').1 rfl
  constructor
  · calc 2 ^ 52 = 2 ^ n.log2 * 2 ^ (52 - n.log2) := by rw [← pow_add]; congr 1; omega
      _ ≤ n * 2 ^ (52 - n.log2) := Nat.mul_le_mul_right _ hlow
  · calc n * 2 ^ (52 - n.log2) < 2 ^ (n.log2 + 1) * 2 ^ (52 - n.log2) :=
          Nat.mul_lt_mul_of_pos_right hhigh (Nat.two_pow_pos _)
      _ = 2 ^ 53 := by rw [← pow_add]; congr 1; omega

theorem scaled_isDouble {n : Nat} (hpos : 0 < n) (hlog : n.log2 ≤ 52) :
    IsDouble (n * 2 ^ (52 - n.log2)) (n.log2 - 52) := by
  obtain ⟨hlow, hhigh⟩ := scaled_bounds hpos hlog
  exact ⟨⟨by omega, hhigh, by omega, .inl hlow⟩, by omega⟩

theorem log2_scaled {n : Nat} (hpos : 0 < n) (hlog : n.log2 ≤ 52) :
    (n * 2 ^ (52 - n.log2)).log2 = 52 :=
  (Nat.log2_eq_iff (scaled_isDouble hpos hlog).pos.ne').2 (scaled_bounds hpos hlog)

theorem round_nat {n : Nat} (hpos : 0 < n) (hlog : n.log2 ≤ 52) :
    UnpackedFloat.round Format.binary64 .positive n 0
      = .finite .positive _ (n.log2 - 52) (scaled_isDouble hpos hlog).pos := by
  have hdouble := scaled_isDouble hpos hlog
  have hslog := log2_scaled hpos hlog
  have htarget : Format.binary64.targetExponent (totalExponent n 0) = n.log2 - 52 := by
    rw [target_eq, totalExponent]
    omega
  have hdecrease : decreaseExponent n 0 (n.log2 - 52)
      = (n * 2 ^ (52 - n.log2), (n.log2 : Int) - 52) := by
    have hshift : (0 - ((n.log2 : Int) - 52)).toNat = 52 - n.log2 := by omega
    have hexponent : (0 : Int) - ((52 - n.log2 : Nat) : Int) = n.log2 - 52 := by omega
    rw [decreaseExponent, hshift, hexponent, Nat.shiftLeft_eq]
  have hkept : (n.log2 : Int) - 52 ≤ Format.binary64.targetExponent
      (totalExponent (n * 2 ^ (52 - n.log2)) (n.log2 - 52)) := by
    rw [target_eq, totalExponent, hslog]
    omega
  rw [UnpackedFloat.round, htarget, hdecrease]
  exact roundWithAccuracy_eq hdouble.toCanonical (holds_self hdouble.pos _) (places_exact _) hkept
    .positive

theorem exactly_nat {n : Nat} (hpos : 0 < n) (hlt : n < 2 ^ 53) :
    Exactly n.toUInt64.toFloat n := by
  have hlog : n.log2 ≤ 52 := Nat.le_of_lt_succ ((Nat.log2_lt hpos.ne').2 hlt)
  refine ⟨_, _, scaled_isDouble hpos hlog, ?_, ?_, log2_scaled hpos hlog⟩
  · have hword : n.toUInt64.toNat = n := Nat.mod_eq_of_lt (by omega)
    have hcompare : compare (n : Int) 0 = .gt := Int.compare_eq_gt.2 (by omega)
    change Float.ofModel
      (.pack (UnpackedFloat.normalize Format.binary64 n.toUInt64.toNat 0 .positive)) = _
    rw [hword, UnpackedFloat.normalize, hcompare]
    simp only [Int.toNat_natCast, round_nat hpos hlog]
    rfl
  · have hpow : (2 : ℚ) ^ (52 - n.log2) * 2 ^ ((n.log2 : Int) - 52) = 1 := by
      rw [← zpow_natCast, ← zpow_add₀ (by norm_num), ← zpow_zero 2]
      congr 1
      omega
    push_cast
    rw [mul_assoc, hpow, mul_one]

def powerSignificand (e : Nat) : Nat :=
  10 ^ e * 2 ^ 52 / 2 ^ (10 ^ e).log2

def powerExponent (e : Nat) : Int :=
  (10 ^ e).log2 - 52

theorem power_isDouble : ∀ e < 23, IsDouble (powerSignificand e) (powerExponent e) := by
  have hbounds : ∀ e < 23, (2 ^ 52 ≤ powerSignificand e ∧ powerSignificand e < 2 ^ 53)
      ∧ -1074 ≤ powerExponent e ∧ powerExponent e ≤ 971 := by decide
  intro e he
  obtain ⟨⟨hlow, hhigh⟩, hfloor, htop⟩ := hbounds e he
  exact ⟨⟨by omega, hhigh, hfloor, .inl hlow⟩, htop⟩

theorem power_eq : ∀ e, ∀ he : e < 23,
    Float.exactlyRepresentablePowersOfTen[e] = double (power_isDouble e he) .positive := by
  simp only [← Float.toBits_inj]
  decide +kernel

theorem exactly_power {e : Nat} (he : e < 23) :
    Exactly Float.exactlyRepresentablePowersOfTen[e] (10 ^ e) := by
  have hvalue : ∀ e < 23, powerSignificand e * 2 ^ (10 ^ e).log2 = 10 ^ e * 2 ^ 52
      ∧ (powerSignificand e).log2 = 52 := by decide
  obtain ⟨hproduct, hlog⟩ := hvalue e he
  refine ⟨_, _, power_isDouble e he, power_eq e he, ?_, hlog⟩
  have hproduct' : (powerSignificand e : ℚ) * 2 ^ (10 ^ e).log2 = 10 ^ e * 2 ^ 52 := by
    exact_mod_cast hproduct
  rw [powerExponent, zpow_sub₀ (by norm_num), zpow_natCast, ← mul_div_assoc, hproduct']
  norm_num

section Exact

variable {s : Nat} {t : Int} (h : IsDouble s t) {x y : Float} {p q : ℚ}

theorem Exactly.mul (hx : Exactly x p) (hy : Exactly y q) (hv : (doubleAt s t).Holds (p * q)) :
    x * y = double h .positive := by
  obtain ⟨m₁, e₁, h₁, rfl, rfl, hbits⟩ := hx
  obtain ⟨m₂, e₂, h₂, rfl, rfl, -⟩ := hy
  change Float.ofModel (.pack (UnpackedFloat.mul Format.binary64 (double h₁ _).toModel.unpack
    (double h₂ _).toModel.unpack)) = _
  rw [double_unpack, double_unpack, mul_eq h.toCanonical h₁.pos h₂.pos hv hbits.ge]
  rfl

theorem Exactly.div (hx : Exactly x p) (hy : Exactly y q) (hv : (doubleAt s t).Holds (p / q)) :
    x / y = double h .positive := by
  obtain ⟨m₁, e₁, h₁, rfl, rfl, -⟩ := hx
  obtain ⟨m₂, e₂, h₂, rfl, rfl, -⟩ := hy
  change Float.ofModel (.pack (UnpackedFloat.div Format.binary64 (double h₁ _).toModel.unpack
    (double h₂ _).toModel.unpack)) = _
  rw [double_unpack, double_unpack, div_eq h.toCanonical h₁.pos h₂.pos hv]
  rfl

end Exact

theorem ten_zpow_of_nonneg {k : Int} (hk : 0 ≤ k) : (10 : ℚ) ^ k = 10 ^ k.natAbs := by
  rw [← zpow_natCast, Int.natAbs_of_nonneg hk]

theorem ten_zpow_of_neg {k : Int} (hk : k < 0) : (10 : ℚ) ^ k = (10 ^ k.natAbs)⁻¹ := by
  rw [← zpow_natCast, ← zpow_neg]
  congr 1
  omega

section Scientific

variable {s : Nat} {t : Int} (h : IsDouble s t) {v : ℚ}

include h

theorem Neighbourhood.Holds.lt_top (hv : (doubleAt s t).Holds v) : v < 2 ^ (1024 : Int) :=
  (hv.lt_zpow h.toCanonical).trans_le
    (zpow_le_zpow_right₀ (by norm_num) (by have := h.top; omega))

theorem Neighbourhood.Holds.ge_bottom (hv : (doubleAt s t).Holds v) : 2 ^ (-1075 : Int) ≤ v := by
  have hs : (1 : ℚ) ≤ s := by exact_mod_cast h.pos
  calc (2 : ℚ) ^ (-1075 : Int) = 1 / 2 * 2 ^ (-1074 : Int) := by
        rw [show (-1075 : Int) = -1 + -1074 by norm_num, zpow_add₀ (by norm_num)]
        norm_num
    _ ≤ (s - 1 / 2) * 2 ^ t :=
        mul_le_mul (by linarith) (zpow_le_zpow_right₀ (by norm_num) h.floor) (two_zpow_pos _).le
          (by linarith)
    _ ≤ v := (Neighbourhood.lowest_ge h.pos).trans hv.bounds.1

theorem exponent_range {m : Nat} (hm : 0 < m) {k : Int} (hv : (doubleAt s t).Holds (m * 10 ^ k)) :
    k ≤ 2 ^ 11 ∧ -((2 ^ 11 : Int) + m.log2) ≤ k := by
  have hm' : (1 : ℚ) ≤ m := by exact_mod_cast hm
  constructor
  · by_contra hk
    have hpow : (2 : ℚ) ^ k ≤ m * 10 ^ k :=
      calc (2 : ℚ) ^ k ≤ 10 ^ k := zpow_le_zpow_left₀ (by omega) (by norm_num) (by norm_num)
        _ ≤ m * 10 ^ k := le_mul_of_one_le_left (by positivity) hm'
    have := two_zpow_lt_iff.1 (hpow.trans_lt (hv.lt_top h))
    omega
  · by_contra hk
    have hlog : (m : ℚ) < 2 ^ ((m.log2 : Int) + 1) := by
      have : m < 2 ^ (m.log2 + 1) := Nat.lt_log2_self
      exact_mod_cast this
    have hpow : (10 : ℚ) ^ k ≤ 2 ^ k := by
      rw [← inv_le_inv₀ (by positivity) (by positivity), ← zpow_neg, ← zpow_neg]
      exact zpow_le_zpow_left₀ (by omega) (by norm_num) (by norm_num)
    have hless : (m * 10 ^ k : ℚ) < 2 ^ ((m.log2 : Int) + 1 + k) :=
      calc (m * 10 ^ k : ℚ) < 2 ^ ((m.log2 : Int) + 1) * 2 ^ k :=
            mul_lt_mul hlog hpow (by positivity) (by positivity)
        _ = 2 ^ ((m.log2 : Int) + 1 + k) := (zpow_add₀ (by norm_num) _ _).symm
    have := two_zpow_lt_iff.1 ((hv.ge_bottom h).trans_lt hless)
    omega

theorem ofScientific_unpacked {m : Nat} (hm : 0 < m) {k : Int}
    (hv : (doubleAt s t).Holds (m * 10 ^ k)) :
    UnpackedFloat.ofScientific Format.binary64 m k = .finite .positive s t h.pos := by
  obtain ⟨hhigh, hlow⟩ := exponent_range h hm hv
  have hlarge : ¬k > 2 ^ Format.binary64.exponentBits := not_lt.2 hhigh
  have hsmall : ¬k < -((2 ^ Format.binary64.exponentBits : Int) + m.log2) := not_lt.2 hlow
  have hwidth : Format.binary64.mantissaBits = 53 := rfl
  simp only [UnpackedFloat.ofScientific, dif_neg hm.ne', if_neg hlarge, if_neg hsmall, hwidth]
  split
  · next hk =>
      have hvalue : ((m <<< 53 : Nat) * 2 ^ (-((53 : Nat) : Int))
          * ((10 ^ k.toNat : Nat) * 2 ^ (0 : Int)) : ℚ) = m * 10 ^ k := by
        have habs : k.toNat = k.natAbs := by omega
        rw [ten_zpow_of_nonneg hk, habs, Nat.shiftLeft_eq, zpow_zero, zpow_neg, zpow_natCast]
        push_cast
        field_simp
        norm_num
      have hlog : 52 ≤ (m <<< 53).log2 := by
        rw [Nat.shiftLeft_eq, Nat.le_log2 (by positivity)]
        omega
      rw [← hvalue] at hv
      exact mul_eq h.toCanonical _ _ hv hlog
  · next hk =>
      have hvalue : (m * 2 ^ (0 : Int) / ((10 ^ (-k).toNat : Nat) * 2 ^ (0 : Int)) : ℚ)
          = m * 10 ^ k := by
        have habs : (-k).toNat = k.natAbs := by omega
        rw [ten_zpow_of_neg (by omega), habs, zpow_zero, mul_one, mul_one, div_eq_mul_inv]
        push_cast
        rfl
      rw [← hvalue] at hv
      exact div_eq h.toCanonical _ _ hv

theorem ofScientific_eq {m : Nat} (hm : 0 < m) {k : Int}
    (hv : (doubleAt s t).Holds (m * 10 ^ k)) :
    Float.ofScientific m (decide (k < 0)) k.natAbs = double h .positive := by
  rw [Float.ofScientific]
  split
  -- Small coefficients and exponents are exact doubles, so one operation on them rounds once.
  · next hfast =>
      have hnat := exactly_nat hm hfast.1
      have hpower := exactly_power (e := k.natAbs) (by omega)
      by_cases hk : k < 0
      · have hvalue : (m / 10 ^ k.natAbs : ℚ) = m * 10 ^ k := by
          rw [ten_zpow_of_neg hk, div_eq_mul_inv]
        rw [← hvalue] at hv
        simp only [hk, decide_true, if_true]
        exact hnat.div h hpower hv
      · have hvalue : (m * 10 ^ k.natAbs : ℚ) = m * 10 ^ k := by
          rw [ten_zpow_of_nonneg (by omega)]
        rw [← hvalue] at hv
        simp only [hk, decide_false, Bool.false_eq_true, if_false]
        exact hnat.mul h hpower hv
  · next hslow =>
      have hk : (if decide (k < 0) = true then Int.negOfNat k.natAbs else Int.ofNat k.natAbs)
          = k := by
        by_cases hneg : k < 0
        · rw [if_pos (decide_eq_true hneg), Int.negOfNat_eq, Int.ofNat_eq_natCast]
          omega
        · rw [if_neg (by simpa using hneg), Int.ofNat_eq_natCast]
          omega
      simp only [hk]
      rw [Float.Model.ofScientific, ofScientific_unpacked h hm hv]
      rfl

end Scientific

namespace Decimal

def value (d : Decimal) : ℚ :=
  d.coefficient * 10 ^ d.exponent

theorem digits_bounds {d : Decimal} (hd : d.coefficient ≠ 0) :
    10 ^ (d.digits.length - 1) ≤ d.coefficient ∧ d.coefficient < 10 ^ d.digits.length := by
  have hpos : 0 < d.digits.length := List.length_pos_iff.2 Nat.toDigits_ne_nil
  constructor
  · by_contra hlt
    by_cases hone : d.digits.length - 1 = 0
    · rw [hone] at hlt
      omega
    · have hshort : d.digits.length ≤ d.digits.length - 1 :=
        (Nat.length_toDigits_le_iff (by decide) (Nat.pos_of_ne_zero hone)).2 (not_le.1 hlt)
      omega
  · exact (Nat.length_toDigits_le_iff (by decide) hpos).1 le_rfl

theorem leading_bounds {d : Decimal} (hd : d.coefficient ≠ 0) :
    10 ^ d.leading ≤ d.value ∧ d.value < 10 ^ (d.leading + 1) := by
  obtain ⟨hlow, hhigh⟩ := digits_bounds hd
  have hpos : 0 < d.digits.length := List.length_pos_iff.2 Nat.toDigits_ne_nil
  have hten : (0 : ℚ) < 10 ^ d.exponent := zpow_pos (by norm_num) _
  have hlow' : (10 : ℚ) ^ (d.digits.length - 1) ≤ d.coefficient := by exact_mod_cast hlow
  have hhigh' : (d.coefficient : ℚ) < 10 ^ d.digits.length := by exact_mod_cast hhigh
  constructor
  · calc (10 : ℚ) ^ d.leading = 10 ^ (d.digits.length - 1) * 10 ^ d.exponent := by
          rw [← zpow_natCast, ← zpow_add₀ (by norm_num), leading]
          congr 1
          omega
      _ ≤ d.value := mul_le_mul_of_nonneg_right hlow' hten.le
  · calc d.value < 10 ^ d.digits.length * 10 ^ d.exponent := mul_lt_mul_of_pos_right hhigh' hten
      _ = 10 ^ (d.leading + 1) := by
          rw [← zpow_natCast, ← zpow_add₀ (by norm_num), leading]
          congr 1
          omega

variable {s : Nat} {t : Int} (h : IsDouble s t) {d : Decimal}

include h

theorem leading_of_holds (hd : d.coefficient ≠ 0) (hv : (doubleAt s t).Holds d.value) :
    -400 ≤ d.leading ∧ d.leading ≤ 400 := by
  obtain ⟨hlow, hhigh⟩ := leading_bounds hd
  have height : (2 : ℚ) ^ (1200 : Int) ≤ 10 ^ (400 : Int) :=
    calc (2 : ℚ) ^ (1200 : Int) = (2 ^ (3 : Int)) ^ (400 : Int) := (zpow_mul 2 3 400)
      _ ≤ 10 ^ (400 : Int) := zpow_le_zpow_left₀ (by norm_num) (by norm_num) (by norm_num)
  have htop : (2 : ℚ) ^ (1024 : Int) ≤ 10 ^ (400 : Int) :=
    (zpow_le_zpow_right₀ (by norm_num) (by norm_num)).trans height
  have hbottom : (10 : ℚ) ^ (-400 : Int) ≤ 2 ^ (-1075 : Int) :=
    calc (10 : ℚ) ^ (-400 : Int) ≤ 2 ^ (-1200 : Int) := by
          rw [zpow_neg, zpow_neg, inv_le_inv₀ (by positivity) (by positivity)]
          exact height
      _ ≤ 2 ^ (-1075 : Int) := zpow_le_zpow_right₀ (by norm_num) (by norm_num)
  have hten : (1 : ℚ) < 10 := by norm_num
  have h₁ := (zpow_lt_zpow_iff_right₀ hten).1 ((hlow.trans_lt (hv.lt_top h)).trans_le htop)
  have h₂ := (zpow_lt_zpow_iff_right₀ hten).1 ((hbottom.trans (hv.ge_bottom h)).trans_lt hhigh)
  omega

theorem toFloat_eq (hv : (doubleAt s t).Holds d.value) (sign : Sign) :
    d.toFloat (negates sign) = double h sign := by
  have hd : d.coefficient ≠ 0 := by
    intro hzero
    have hpos := (two_zpow_pos _).trans_le (hv.ge_bottom h)
    simp [value, hzero] at hpos
  obtain ⟨hlow, hhigh⟩ := leading_of_holds h hd hv
  have hmagnitude := ofScientific_eq h (Nat.pos_of_ne_zero hd) hv
  simp only [toFloat, if_neg hd, if_neg (not_lt.2 hhigh), if_neg (not_lt.2 hlow), hmagnitude]
  cases sign with
  | positive => rfl
  | negative =>
      change Float.ofModel (.pack (double h .positive).toModel.unpack.neg) = _
      rw [double_unpack]
      rfl

end Decimal

end Scenograph
