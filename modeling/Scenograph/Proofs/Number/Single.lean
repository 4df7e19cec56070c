import Mathlib.Tactic.Positivity
import Scenograph.Proofs.Number.Shortest

namespace Scenograph

theorem nearest_roundQuotient (n : Nat) {d : Nat} (hd : 0 < d) :
    Nearest (roundQuotient n d) (n / d) := by
  obtain ⟨q, hq⟩ : ∃ q, q = n / d := ⟨_, rfl⟩
  obtain ⟨r, hr⟩ : ∃ r, r = n % d := ⟨_, rfl⟩
  have hd' : (0 : ℚ) < d := by exact_mod_cast hd
  have hdivide : (n / d : ℚ) = q + r / d := by
    rw [eq_comm, add_div' _ _ _ hd'.ne', div_left_inj' hd'.ne', hq, hr]
    exact_mod_cast Nat.div_add_mod' n d
  have hnonneg : (0 : ℚ) ≤ r / d := by positivity
  have hlt : (r / d : ℚ) < 1 := by
    rw [div_lt_one hd', hr]
    exact_mod_cast Nat.mod_lt n hd
  have hbelow : (r / d : ℚ) < 1 / 2 ↔ 2 * r < d := by
    rw [div_lt_div_iff₀ hd' (by norm_num), mul_comm (r : ℚ), one_mul]
    exact_mod_cast Iff.rfl
  have habove : (1 / 2 : ℚ) < r / d ↔ d < 2 * r := by
    rw [div_lt_div_iff₀ (by norm_num) hd', mul_comm (r : ℚ), one_mul]
    exact_mod_cast Iff.rfl
  simp only [roundQuotient, ← hq, ← hr, ← hbelow, ← habove, Nearest, hdivide]
  split_ifs with hlow hhigh heven
  · left
    constructor <;> linarith
  · left
    push_cast
    constructor <;> linarith
  · exact .inr ⟨heven, by linarith, by linarith⟩
  · refine .inr ⟨by omega, ?_, ?_⟩ <;> push_cast <;> linarith

def IsSingle (w : ℚ) : Prop :=
  ∃ (m : Nat) (e : Int), m < 2 ^ 24 ∧ -149 ≤ e ∧ e ≤ 104 ∧ w = m * 2 ^ e

structure RoundsAt (v : ℚ) (m : Nat) (e : Int) : Prop where
  nearest : Nearest m (v / 2 ^ e)
  floor : -149 ≤ e
  normal : e = -149 ∨ 2 ^ (23 + e) ≤ v
  fits : m ≤ 2 ^ 24

def singleExponent (s : Nat) (t : Int) : Int :=
  max (-149) (t + s.log2 - 23)

def singleSignificand (s : Nat) (t : Int) : Nat :=
  if singleExponent s t ≤ t then s * 2 ^ (t - singleExponent s t).toNat
  else roundQuotient s (2 ^ (singleExponent s t - t).toNat)

theorem value_lt_zpow (s : Nat) (t : Int) : (s * 2 ^ t : ℚ) < 2 ^ (s.log2 + 1 + t) := by
  have hlog : s < 2 ^ (s.log2 + 1) := Nat.lt_log2_self
  rw [zpow_add₀ (by norm_num)]
  refine mul_lt_mul_of_pos_right ?_ (two_zpow_pos t)
  exact_mod_cast hlog

theorem zpow_le_value {s : Nat} (hs : 0 < s) (t : Int) : (2 : ℚ) ^ (s.log2 + t) ≤ s * 2 ^ t := by
  have hlog : 2 ^ s.log2 ≤ s := Nat.log2_self_le hs.ne'
  rw [zpow_add₀ (by norm_num)]
  refine mul_le_mul_of_nonneg_right ?_ (two_zpow_pos t).le
  exact_mod_cast hlog

theorem nearest_self (n : Nat) : Nearest n n := by
  left
  constructor <;> linarith

theorem nearest_single (s : Nat) (t : Int) :
    Nearest (singleSignificand s t) (s * 2 ^ t / 2 ^ singleExponent s t) := by
  rw [singleSignificand, mul_div_assoc, ← zpow_sub₀ (by norm_num)]
  obtain ⟨e, he⟩ : ∃ e, e = singleExponent s t := ⟨_, rfl⟩
  rw [← he]
  split
  · next hle =>
      have hexact : (s * 2 ^ (t - e) : ℚ) = (s * 2 ^ (t - e).toNat : Nat) := by
        rw [Nat.cast_mul, Nat.cast_pow, Nat.cast_ofNat, ← zpow_natCast,
          Int.toNat_of_nonneg (by omega)]
      rw [hexact]
      exact nearest_self _
  · next hlt =>
      have hquotient : (s * 2 ^ (t - e) : ℚ) = s / (2 ^ (e - t).toNat : Nat) := by
        rw [Nat.cast_pow, Nat.cast_ofNat, ← zpow_natCast, Int.toNat_of_nonneg (by omega),
          div_eq_mul_inv, ← zpow_neg, neg_sub]
      rw [hquotient]
      exact nearest_roundQuotient s (Nat.two_pow_pos _)

theorem roundsAt_single {s : Nat} (hs : 0 < s) (t : Int) :
    RoundsAt (s * 2 ^ t) (singleSignificand s t) (singleExponent s t) := by
  obtain ⟨e, he⟩ : ∃ e, e = singleExponent s t := ⟨_, rfl⟩
  have hnearest := nearest_single s t
  rw [← he] at hnearest ⊢
  rw [singleExponent] at he
  refine ⟨hnearest, by omega, ?_, ?_⟩
  · rcases max_choice (-149) (t + s.log2 - 23) with hmax | hmax
    · exact .inl (he.trans hmax)
    · right
      have hexponent : 23 + e = s.log2 + t := by omega
      rw [hexponent]
      exact zpow_le_value hs t
  · have hlt : (s * 2 ^ t / 2 ^ e : ℚ) < 2 ^ 24 := by
      rw [div_lt_iff₀ (two_zpow_pos e), ← zpow_natCast, ← zpow_add₀ (by norm_num)]
      exact (value_lt_zpow s t).trans_le
        (zpow_le_zpow_right₀ (by norm_num) (by push_cast; omega))
    have hbound := hnearest.bounds.1
    have hcast : ((singleSignificand s t : Nat) : ℚ) < (2 ^ 24 + 1 : Nat) := by
      push_cast
      linarith
    exact Nat.le_of_lt_succ (by exact_mod_cast hcast)

theorem toSingle_of_carry {s : Nat} {t : Int} (hs : 0 < s) (h : singleSignificand s t = 2 ^ 24) :
    toSingle s t = if 104 < singleExponent s t + 1 then none
      else some (2 ^ 23, singleExponent s t + 1) := by
  unfold singleSignificand singleExponent at h
  simp only [toSingle, if_neg hs.ne', Nat.pow_eq, h, if_true]
  rfl

theorem toSingle_of_no_carry {s : Nat} {t : Int} (hs : 0 < s)
    (h : singleSignificand s t ≠ 2 ^ 24) :
    toSingle s t = if 104 < singleExponent s t then none
      else some (singleSignificand s t, singleExponent s t) := by
  unfold singleSignificand singleExponent at h ⊢
  simp only [toSingle, if_neg hs.ne', Nat.pow_eq, if_neg h]

theorem toSingle_eq_some {s : Nat} {t : Int} (hs : 0 < s) {m : Nat} {e : Int}
    (h : toSingle s t = some (m, e)) : m < 2 ^ 24 ∧ -149 ≤ e ∧ e ≤ 104
      ∧ (m * 2 ^ e : ℚ) = singleSignificand s t * 2 ^ singleExponent s t := by
  have hround := roundsAt_single hs t
  have hfloor := hround.floor
  by_cases hcarry : singleSignificand s t = 2 ^ 24
  · rw [toSingle_of_carry hs hcarry] at h
    split at h
    · cases h
    · -- The carry into the next binade keeps the value.
      cases h
      refine ⟨by norm_num, by omega, by omega, ?_⟩
      rw [hcarry, zpow_add_one₀ (by norm_num)]
      push_cast
      ring
  · rw [toSingle_of_no_carry hs hcarry] at h
    split at h
    · cases h
    · cases h
      exact ⟨lt_of_le_of_ne hround.fits hcarry, hfloor, by omega, rfl⟩

def IsWhole (v : ℚ) : Prop :=
  ∃ n : Nat, v = n

theorem isWhole_of_exponent (m : Nat) {e : Int} (he : 0 ≤ e) : IsWhole (m * 2 ^ e) := by
  obtain ⟨k, rfl⟩ := Int.eq_ofNat_of_zero_le he
  exact ⟨m * 2 ^ k, by push_cast; rw [zpow_natCast]⟩

section Nearest

variable {m : Nat} {q : ℚ}

theorem Nearest.abs_le_half (h : Nearest m q) : |q - m| ≤ 1 / 2 := by
  obtain ⟨hlow, hhigh⟩ := h.bounds
  exact abs_le.2 ⟨by linarith, by linarith⟩

theorem nearest_of_even {k : Nat} (hk : k % 2 = 0) (h : |q - k| ≤ 1 / 2) : Nearest k q := by
  obtain ⟨hlow, hhigh⟩ := abs_le.1 h
  exact .inr ⟨hk, by linarith, by linarith⟩

theorem Nearest.abs_le (h : Nearest m q) (k : Nat) : |q - m| ≤ |q - k| := by
  by_cases hne : k = m
  · rw [hne]
  · have hhalf := h.abs_le_half
    have happart : (1 : ℚ) ≤ |(m : ℚ) - k| := by
      have hint : (1 : Int) ≤ |(m : Int) - k| := Int.one_le_abs (by omega)
      exact_mod_cast hint
    have htriangle := abs_sub_le (m : ℚ) q k
    rw [abs_sub_comm (m : ℚ) q] at htriangle
    linarith

-- a tie would go to the even number
theorem Nearest.abs_lt_of_even (h : Nearest m q) {k : Nat} (hk : k % 2 = 0) (hne : k ≠ m) :
    |q - m| < |q - k| := by
  by_contra hle
  rw [not_lt] at hle
  exact hne ((nearest_of_even hk (hle.trans h.abs_le_half)).unique h)

end Nearest

theorem abs_sub_multiple (v : ℚ) (k : Nat) (e : Int) :
    |v - k * 2 ^ e| = |v / 2 ^ e - k| * 2 ^ e := by
  have hpos := two_zpow_pos e
  rw [← abs_of_pos hpos, ← abs_mul, abs_of_pos hpos, sub_mul, div_mul_cancel₀ _ hpos.ne']

namespace RoundsAt

variable {v : ℚ} {m : Nat} {e : Int}

theorem abs_le_multiple (h : RoundsAt v m e) (k : Nat) :
    |v - m * 2 ^ e| ≤ |v - k * 2 ^ e| := by
  rw [abs_sub_multiple, abs_sub_multiple]
  exact mul_le_mul_of_nonneg_right (h.nearest.abs_le k) (two_zpow_pos e).le

theorem abs_le_single (h : RoundsAt v m e) {w : ℚ} (hw : IsSingle w) :
    |v - m * 2 ^ e| ≤ |v - w| := by
  obtain ⟨m', e', hm', hfloor, -, rfl⟩ := hw
  rcases le_or_gt e e' with hle | hlt
  · have hmultiple : (m' * 2 ^ e' : ℚ) = (m' * 2 ^ (e' - e).toNat : Nat) * 2 ^ e := by
      rw [Nat.cast_mul, Nat.cast_pow, Nat.cast_ofNat, ← zpow_natCast,
        Int.toNat_of_nonneg (by omega), mul_assoc, ← zpow_add₀ (by norm_num), sub_add_cancel]
    rw [hmultiple]
    exact h.abs_le_multiple _
  · -- A single of a lower binade lies below the least multiple of this one.
    have hnormal : (2 : ℚ) ^ (23 + e) ≤ v := h.normal.resolve_left (by omega)
    have hbelow : (m' * 2 ^ e' : ℚ) ≤ 2 ^ (23 + e) := by
      have hm : (m' : ℚ) ≤ 2 ^ (24 : Int) := by exact_mod_cast hm'.le
      calc (m' * 2 ^ e' : ℚ) ≤ 2 ^ (24 : Int) * 2 ^ e' :=
            mul_le_mul_of_nonneg_right hm (two_zpow_pos e').le
        _ = 2 ^ (24 + e') := (zpow_add₀ (by norm_num) _ _).symm
        _ ≤ 2 ^ (23 + e) := zpow_le_zpow_right₀ (by norm_num) (by omega)
    have hleast := h.abs_le_multiple (2 ^ 23)
    have hpower : ((2 ^ 23 : Nat) * 2 ^ e : ℚ) = 2 ^ (23 + e) := by
      rw [zpow_add₀ (by norm_num)]
      norm_num
    rw [hpower, abs_of_nonneg (sub_nonneg.2 hnormal)] at hleast
    rw [abs_of_nonneg (sub_nonneg.2 (hbelow.trans hnormal))]
    linarith

theorem abs_lt_whole (h : RoundsAt v m e) (hwhole : ¬IsWhole (m * 2 ^ e)) (n : Nat) :
    |v - m * 2 ^ e| < |v - n| := by
  have hneg : e < 0 := by
    by_contra he
    exact hwhole (isWhole_of_exponent m (by omega))
  obtain ⟨k, hk⟩ : ∃ k : Nat, -e = k + 1 := ⟨(-e - 1).toNat, by omega⟩
  have hmultiple : (n : ℚ) = (n * 2 ^ (k + 1) : Nat) * 2 ^ e := by
    rw [Nat.cast_mul, Nat.cast_pow, Nat.cast_ofNat, mul_assoc, ← zpow_natCast,
      ← zpow_add₀ (by norm_num), Nat.cast_add, Nat.cast_one, ← hk, neg_add_cancel, zpow_zero,
      mul_one]
  have hne : n * 2 ^ (k + 1) ≠ m := fun hm => hwhole ⟨n, by rw [hmultiple, hm]⟩
  have heven : n * 2 ^ (k + 1) % 2 = 0 := by
    rw [pow_succ, ← mul_assoc, Nat.mul_mod_left]
  rw [hmultiple, abs_sub_multiple, abs_sub_multiple]
  exact mul_lt_mul_of_pos_right (h.nearest.abs_lt_of_even heven hne) (two_zpow_pos e)

end RoundsAt

def singleLimit : ℚ :=
  2 ^ 128 - 2 ^ 103

theorem RoundsAt.limit_le_iff {v : ℚ} {m : Nat} {e : Int} (h : RoundsAt v m e) :
    singleLimit ≤ v ↔ 104 < e ∨ e = 104 ∧ m = 2 ^ 24 := by
  obtain ⟨hlow, hhigh⟩ := h.nearest.bounds
  have hpos := two_zpow_pos e
  rw [le_div_iff₀ hpos] at hlow
  rw [div_le_iff₀ hpos] at hhigh
  have hfits : (m : ℚ) ≤ 2 ^ 24 := by exact_mod_cast h.fits
  rcases lt_trichotomy e 104 with hlt | rfl | hgt
  · have hpower : (2 : ℚ) ^ e ≤ 2 ^ (103 : Int) := zpow_le_zpow_right₀ (by norm_num) (by omega)
    have hsmall : v < singleLimit := by
      calc v ≤ (m + 1 / 2) * 2 ^ e := hhigh
        _ ≤ (2 ^ 24 + 1 / 2) * 2 ^ (103 : Int) :=
            mul_le_mul (by linarith) hpower hpos.le (by norm_num)
        _ < singleLimit := by norm_num [singleLimit]
    exact iff_of_false (not_le.2 hsmall) (by omega)
  · have htop : (2 : ℚ) ^ (104 : Int) = 2 ^ 104 := by norm_num
    rw [htop] at hlow hhigh
    constructor
    · intro hlimit
      refine .inr ⟨rfl, (nearest_of_even (by norm_num) ?_).unique h.nearest |>.symm⟩
      rw [htop, abs_le, le_sub_iff_add_le, sub_le_iff_le_add, le_div_iff₀ (by positivity),
        div_le_iff₀ (by positivity)]
      norm_num [singleLimit] at hlimit hhigh ⊢
      constructor <;> linarith
    · rintro (hlarge | ⟨-, rfl⟩)
      · omega
      · norm_num [singleLimit] at hlow ⊢
        linarith
  · have hnormal : (2 : ℚ) ^ (23 + e) ≤ v := h.normal.resolve_left (by omega)
    have hlarge : (2 : ℚ) ^ (128 : Int) ≤ 2 ^ (23 + e) :=
      zpow_le_zpow_right₀ (by norm_num) (by omega)
    refine iff_of_true ?_ (.inl hgt)
    norm_num [singleLimit] at hlarge ⊢
    linarith

theorem toSingle_eq_none_iff {s : Nat} (hs : 0 < s) (t : Int) :
    toSingle s t = none ↔ singleLimit ≤ s * 2 ^ t := by
  rw [(roundsAt_single hs t).limit_le_iff]
  by_cases hcarry : singleSignificand s t = 2 ^ 24
  · rw [toSingle_of_carry hs hcarry]
    split <;> simp <;> omega
  · rw [toSingle_of_no_carry hs hcarry]
    split <;> simp <;> omega

namespace Neighbourhood

section Search

variable (n : Neighbourhood) (tie : Tie)

theorem search_floor (fuel : Nat) (k : Int) : k - fuel ≤ (n.search tie fuel k).exponent := by
  induction fuel generalizing k with
  | zero => simp [search]
  | succ fuel ih =>
      rw [search]
      split
      · dsimp only
        omega
      · have := ih (k - 1)
        omega

theorem search_ge {fuel : Nat} {k : Int} {j : Nat} (hj : j < fuel)
    (h : n.onGrid tie (k - j) ≠ none) : k - j ≤ (n.search tie fuel k).exponent := by
  induction fuel generalizing k j with
  | zero => cases hj
  | succ fuel ih =>
      rw [search]
      split
      · dsimp only
        omega
      · next hnone =>
          cases j with
          | zero => exact absurd (by simpa using hnone) h
          | succ j =>
              have hstep : k - 1 - (j : Int) = k - ((j + 1 : Nat) : Int) := by omega
              rw [← hstep] at h ⊢
              exact ih (Nat.lt_of_succ_lt_succ hj) h

theorem search_eq_floor_or_covers (fuel : Nat) (k : Int) :
    (n.search tie fuel k).exponent = k - fuel ∨ n.Holds (n.search tie fuel k).value := by
  induction fuel generalizing k with
  | zero => simp [search]
  | succ fuel ih =>
      rw [search]
      split
      · next a ha => exact .inr ((n.covers_iff k a).1 (n.covers_of_onGrid k ha))
      · have hfloor : k - 1 - (fuel : Int) = k - ((fuel + 1 : Nat) : Int) := by omega
        rw [← hfloor]
        exact ih (k - 1)

end Search

abbrev singleAt (m : Nat) (e : Int) : Neighbourhood :=
  .of m e (Nat.pow 2 23) (-149)

section Whole

variable {m : Nat} {e : Int}

theorem holds_singleAt (hm : 0 < m) : (singleAt m e).Holds (m * 2 ^ e) := by
  have hpos := two_zpow_pos e
  have hlow : (singleAt m e).low < 4 * m := by
    simp only [of]
    split <;> omega
  have hlow' : ((singleAt m e).low : ℚ) < 4 * m := by exact_mod_cast hlow
  have hhigh : ((singleAt m e).high : ℚ) = 4 * m + 2 := by simp [of]
  left
  rw [lowest, highest, hhigh]
  simp only [of, quarter_zpow] at hlow' ⊢
  constructor <;> nlinarith

theorem abs_le_of_singleAt {v : ℚ} (h : (singleAt m e).Holds v) :
    |v / 2 ^ e - m| ≤ 1 / 2 := by
  have hpos := two_zpow_pos e
  obtain ⟨hlow, hhigh⟩ := h.bounds
  have hleast : 4 * m ≤ (singleAt m e).low + 2 := by
    simp only [of]
    split <;> omega
  have hleast' : (4 * m : ℚ) ≤ (singleAt m e).low + 2 := by exact_mod_cast hleast
  have hmost : ((singleAt m e).high : ℚ) = 4 * m + 2 := by simp [of]
  rw [lowest] at hlow
  rw [highest, hmost] at hhigh
  simp only [of, quarter_zpow] at hlow hhigh hleast'
  rw [abs_le, le_sub_iff_add_le, sub_le_iff_le_add, le_div_iff₀ hpos, div_le_iff₀ hpos]
  constructor <;> nlinarith

theorem onGrid_whole (hm : 0 < m) {n : Nat} (hn : (m * 2 ^ e : ℚ) = n) (tie : Tie) :
    (singleAt m e).onGrid tie 0 ≠ none := by
  have hvalue : (n * 10 ^ (0 : Int) : ℚ) = m * 2 ^ e := by rw [zpow_zero, mul_one, hn]
  have hscaled : (singleAt m e).scaled 0 (4 * m) = n * (singleAt m e).divisor 0 := by
    have hself : ((4 * m : Nat) * 2 ^ (e - 2) : ℚ) = m * 2 ^ e := by
      rw [quarter_zpow]
      push_cast
      ring
    have hcast := (singleAt m e).scaled_eq 0 (4 * m)
    simp only [of] at hcast
    rw [hself, ← hvalue] at hcast
    have hpoint := (singleAt m e).point_eq 0 n
    simp only [of] at hpoint
    exact_mod_cast hcast.symm.trans hpoint
  have hdivisor : 0 < (singleAt m e).divisor 0 := by
    rw [divisor, Nat.pow_eq, Nat.pow_eq]
    positivity
  have hcovers : (singleAt m e).covers 0 n = true := by
    rw [covers_iff, hvalue]
    exact holds_singleAt hm
  have hbelow : (singleAt m e).scaled 0 (4 * (singleAt m e).significand)
      / (singleAt m e).divisor 0 = n := by
    have hsignificand : (singleAt m e).significand = m := rfl
    rw [hsignificand, hscaled, Nat.mul_div_cancel _ hdivisor]
  simp only [onGrid, hbelow, hcovers]
  cases (singleAt m e).covers 0 (n + 1)
  · simp
  · cases tie <;> split_ifs <;> simp

end Whole

end Neighbourhood

section Exponent

variable {m : Nat} {e : Int}

-- the grid of whole numbers is tried before any finer one
theorem ofSingle_of_whole {n : Nat} (hn : (m * 2 ^ e : ℚ) = n) (tie : Tie) :
    0 ≤ (Decimal.ofSingle tie m e).exponent := by
  rw [Decimal.ofSingle, Neighbourhood.shortest]
  split
  · exact le_rfl
  · next hsome =>
      have hm : 0 < m := Nat.pos_of_ne_zero hsome
      have hone : (1 : ℚ) ≤ n := by
        have hpos : (0 : ℚ) < n := hn ▸ mul_pos (by exact_mod_cast hm) (two_zpow_pos e)
        exact_mod_cast hpos
      have hlog : 0 < (m.log2 : Int) + 1 + e := by
        rw [← two_zpow_lt_iff, zpow_zero]
        exact hone.trans_lt (hn ▸ value_lt_zpow m e)
      obtain ⟨k, hk⟩ : ∃ k, k = ((m.log2 : Int) + e) * 30103 / 100000 + 2 := ⟨_, rfl⟩
      have hfloor := (Neighbourhood.singleAt m e).search_floor tie 24 k
      change 0 ≤ ((Neighbourhood.singleAt m e).search tie 24
        (((m.log2 : Int) + e) * 30103 / 100000 + 2)).exponent
      rw [← hk]
      rcases le_or_gt 24 k with hlarge | hsmall
      · omega
      · obtain ⟨j, hj⟩ := Int.eq_ofNat_of_zero_le (by omega : 0 ≤ k)
        have hgrid : (Neighbourhood.singleAt m e).onGrid tie (k - j) ≠ none := by
          rw [hj, sub_self]
          exact Neighbourhood.onGrid_whole hm hn tie
        have := (Neighbourhood.singleAt m e).search_ge tie (by omega : j < 24) hgrid
        omega

theorem isWhole_of_holds {n : Nat} (he : e < 0) (h : (Neighbourhood.singleAt m e).Holds n) :
    IsWhole (m * 2 ^ e) := by
  have hmultiple : (n / 2 ^ e : ℚ) = (n * 2 ^ (-e).toNat : Nat) := by
    rw [Nat.cast_mul, Nat.cast_pow, Nat.cast_ofNat, ← zpow_natCast, Int.toNat_of_nonneg (by omega),
      zpow_neg, div_eq_mul_inv]
  have hhalf := Neighbourhood.abs_le_of_singleAt h
  rw [hmultiple] at hhalf
  have hequal : n * 2 ^ (-e).toNat = m := by
    by_contra hne
    have hint : (1 : Int) ≤ |((n * 2 ^ (-e).toNat : Nat) : Int) - m| :=
      Int.one_le_abs (by omega)
    have happart : (1 : ℚ) ≤ |((n * 2 ^ (-e).toNat : Nat) : ℚ) - m| := by exact_mod_cast hint
    linarith
  exact ⟨n, by rw [← hequal, ← hmultiple, div_mul_cancel₀ _ (two_zpow_pos e).ne']⟩

theorem isWhole_of_ofSingle (hm : m < 2 ^ 24) {tie : Tie}
    (h : 0 ≤ (Decimal.ofSingle tie m e).exponent) : IsWhole (m * 2 ^ e) := by
  rcases le_or_gt 0 e with he | he
  · exact isWhole_of_exponent m he
  · rcases Nat.eq_zero_or_pos m with rfl | hpos
    · exact ⟨0, by simp⟩
    · have hlog : m.log2 < 24 := (Nat.log2_lt hpos.ne').2 hm
      have hsome : (Neighbourhood.singleAt m e).significand ≠ 0 := hpos.ne'
      rw [Decimal.ofSingle, Neighbourhood.shortest, if_neg hsome] at h
      obtain ⟨k, hk⟩ := Int.eq_ofNat_of_zero_le h
      rcases (Neighbourhood.singleAt m e).search_eq_floor_or_covers tie 24 _ with hfloor | hholds
      · rw [hfloor] at h
        dsimp only [Neighbourhood.of] at h
        omega
      · rw [Decimal.value, hk, zpow_natCast] at hholds
        exact isWhole_of_holds (n := _ * 10 ^ k) he (by exact_mod_cast hholds)

theorem ofSingle_exponent_iff (hm : m < 2 ^ 24) (tie : Tie) :
    0 ≤ (Decimal.ofSingle tie m e).exponent ↔ IsWhole (m * 2 ^ e) :=
  ⟨isWhole_of_ofSingle hm, fun ⟨_, hn⟩ => ofSingle_of_whole hn tie⟩

end Exponent

end Scenograph
