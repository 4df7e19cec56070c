import Mathlib.Algebra.Order.Field.Rat
import Mathlib.Tactic.NormNum
import Mathlib.Tactic.Ring
import Scenograph.Number.Binary

namespace Scenograph

def signedValue (negative : Bool) (s : Nat) (t : Int) : ℚ :=
  if negative then -(s * 2 ^ t) else s * 2 ^ t

inductive Binary.Below : Binary → Binary → Prop where
  | bottom {c : Binary} (hnan : c ≠ .nan) (hne : c ≠ .infinite true) : Below (.infinite true) c
  | top {c : Binary} (hnan : c ≠ .nan) (hne : c ≠ .infinite false) : Below c (.infinite false)
  | finite {m n : Bool} {s u : Nat} {t v : Int} (h : signedValue m s t < signedValue n u v) :
      Below (.finite m s t) (.finite n u v)

namespace Pattern

def content (a : UInt64) : Binary :=
  .ofBits a.toNat

def hasSign (a : UInt64) : Bool :=
  decide (2 ^ 63 ≤ a.toNat)

def payload (a : UInt64) : Nat :=
  a.toNat % 2 ^ 52

def IsNaN (a : UInt64) (sign : Bool) : Prop :=
  content a = .nan ∧ hasSign a = sign

inductive TotalOrder (a b : UInt64) : Prop where
  | same (h : a = b)
  | below (h : (content a).Below (content b))
  | zeros (ha : a = 0x8000000000000000) (hb : b = 0)
  | first (ha : IsNaN a true) (hb : ¬IsNaN b true)
  | last (ha : ¬IsNaN a false) (hb : IsNaN b false)
  | signed (ha : IsNaN a true) (hb : IsNaN b true) (h : payload b < payload a)
  | unsigned (ha : IsNaN a false) (hb : IsNaN b false) (h : payload a < payload b)

def low (a : UInt64) : Nat :=
  a.toNat % 2 ^ 63

def units (m : Nat) : Nat :=
  if m / 2 ^ 52 = 0 then m else (2 ^ 52 + m % 2 ^ 52) * 2 ^ (m / 2 ^ 52 - 1)

theorem units_strictMono : StrictMono units := by
  intro m n hmn
  obtain ⟨e, he⟩ : ∃ e, e = m / 2 ^ 52 := ⟨_, rfl⟩
  obtain ⟨f, hf⟩ : ∃ f, f = n / 2 ^ 52 := ⟨_, rfl⟩
  have hef : e ≤ f := he ▸ hf ▸ Nat.div_le_div_right hmn.le
  simp only [units, ← he, ← hf]
  rcases hef.lt_or_eq with hlt | rfl
  · -- The next binade starts where this one ends.
    have hend : (if e = 0 then m else (2 ^ 52 + m % 2 ^ 52) * 2 ^ (e - 1)) < 2 ^ 52 * 2 ^ e := by
      split
      · next hzero => rw [hzero]; omega
      · next hpos =>
          have hpower : 2 ^ e = 2 * 2 ^ (e - 1) := by rw [← pow_succ']; congr 1; omega
          rw [hpower, ← mul_assoc]
          exact Nat.mul_lt_mul_of_pos_right (by omega) (Nat.two_pow_pos _)
    rw [if_neg (by omega : f ≠ 0)]
    exact hend.trans_le
      (Nat.mul_le_mul (by omega) (Nat.pow_le_pow_right (by decide) (by omega)))
  · split
    · exact hmn
    · exact Nat.mul_lt_mul_of_pos_right (by omega) (Nat.two_pow_pos _)

theorem totalRank_of_sign {a : UInt64} (h : hasSign a = true) : totalRank a = -1 - low a := by
  have hlt := a.toNat_lt
  have hpower : Int.pow 2 63 = 2 ^ 63 := rfl
  simp only [hasSign, decide_eq_true_eq] at h
  simp only [totalRank, low, Nat.pow_eq, hpower, if_neg (by omega : ¬a.toNat < 2 ^ 63)]
  omega

theorem totalRank_of_no_sign {a : UInt64} (h : hasSign a = false) : totalRank a = low a := by
  simp only [hasSign, decide_eq_false_iff_not] at h
  simp only [totalRank, low, Nat.pow_eq, if_pos (by omega : a.toNat < 2 ^ 63)]
  omega

theorem eq_of_low {a b : UInt64} (hsign : hasSign a = hasSign b) (hlow : low a = low b) :
    a = b := by
  have ha := a.toNat_lt
  have hb := b.toNat_lt
  simp only [hasSign, decide_eq_decide, low] at hsign hlow
  exact UInt64.toNat_inj.1 (by omega)

def infinity : Nat :=
  2047 * 2 ^ 52

theorem content_nan {a : UInt64} : content a = .nan ↔ infinity < low a := by
  have ha := a.toNat_lt
  simp only [content, Binary.ofBits, Nat.pow_eq, low, infinity]
  split_ifs <;> simp <;> omega

theorem content_infinite {a : UInt64} {sign : Bool} :
    content a = .infinite sign ↔ low a = infinity ∧ hasSign a = sign := by
  have ha := a.toNat_lt
  have hsign : a.toNat / 2 ^ 63 % 2 = 1 ↔ 2 ^ 63 ≤ a.toNat := by omega
  simp only [content, Binary.ofBits, Nat.pow_eq, low, infinity, hasSign, hsign]
  split_ifs <;> simp <;> omega

theorem content_finite {a : UInt64} (h : low a < infinity) :
    ∃ s t, content a = .finite (hasSign a) s t
      ∧ (s * 2 ^ t : ℚ) = units (low a) * 2 ^ (-1074 : Int) := by
  have ha := a.toNat_lt
  have hsign : a.toNat / 2 ^ 63 % 2 = 1 ↔ 2 ^ 63 ≤ a.toNat := by omega
  have hfield : a.toNat / 2 ^ 52 % 2 ^ 11 = low a / 2 ^ 52 := by simp only [low]; omega
  have hfraction : a.toNat % 2 ^ 52 = low a % 2 ^ 52 := by simp only [low]; omega
  obtain ⟨m, hm⟩ : ∃ m, m = low a := ⟨_, rfl⟩
  simp only [content, Binary.ofBits, Nat.pow_eq, hasSign, hsign, hfield, hfraction, units, ← hm]
  rw [← hm, infinity] at h
  rw [if_neg (by omega)]
  split
  · next hzero => exact ⟨_, _, rfl, by rw [Nat.mod_eq_of_lt (by omega)]⟩
  · next hpos =>
      refine ⟨_, _, rfl, ?_⟩
      obtain ⟨e, he⟩ : ∃ e, e + 1 = m / 2 ^ 52 := ⟨m / 2 ^ 52 - 1, by omega⟩
      have hexponent : ((e + 1 : Nat) : Int) - 1075 = e + -1074 := by push_cast; ring
      rw [← he, hexponent, zpow_add₀ (by norm_num), zpow_natCast, Nat.add_sub_cancel,
        Nat.cast_mul, Nat.cast_pow, Nat.cast_ofNat, mul_assoc]

def signedUnits (a : UInt64) : Int :=
  if hasSign a then -units (low a) else units (low a)

theorem signedValue_eq {a : UInt64} {negative : Bool} {s : Nat} {t : Int}
    (h : content a = .finite negative s t) :
    low a < infinity ∧ signedValue negative s t = signedUnits a * 2 ^ (-1074 : Int) := by
  rcases lt_trichotomy (low a) infinity with hlow | hlow | hlow
  · obtain ⟨s', t', hcontent, hvalue⟩ := content_finite hlow
    cases h.symm.trans hcontent
    refine ⟨hlow, ?_⟩
    simp only [signedValue, signedUnits, hvalue]
    split
    · rw [Int.cast_neg, Int.cast_natCast, neg_mul]
    · rw [Int.cast_natCast]
  · cases h.symm.trans (content_infinite.2 ⟨hlow, rfl⟩)
  · cases h.symm.trans (content_nan.2 hlow)

section Order

variable {a b : UInt64}

theorem rank_lt_of_units (h : signedUnits a < signedUnits b) : totalRank a < totalRank b := by
  have hmono := units_strictMono.lt_iff_lt (a := low a) (b := low b)
  have hmono' := units_strictMono.lt_iff_lt (a := low b) (b := low a)
  rw [signedUnits, signedUnits] at h
  cases ha : hasSign a <;> cases hb : hasSign b <;>
    simp only [ha, hb, Bool.false_eq_true, if_false, if_true] at h <;>
    simp only [ha, hb, totalRank_of_sign, totalRank_of_no_sign] <;> omega

theorem eq_or_zeros_of_units (h : signedUnits a = signedUnits b) :
    a = b ∨ (low a = 0 ∧ low b = 0) := by
  have hinj := units_strictMono.injective.eq_iff (a := low a) (b := low b)
  have hzero : ∀ {m}, units m = 0 → m = 0 := fun hm => units_strictMono.injective hm
  simp only [signedUnits] at h
  by_cases hsign : hasSign a = hasSign b
  · rw [hsign] at h
    refine .inl (eq_of_low hsign ?_)
    split_ifs at h <;> omega
  · refine .inr ⟨hzero ?_, hzero ?_⟩ <;> split_ifs at h <;> simp_all

theorem finite_below_iff (ha : low a < infinity) (hb : low b < infinity) :
    (content a).Below (content b) ↔ signedUnits a < signedUnits b := by
  obtain ⟨s, t, hs, -⟩ := content_finite ha
  obtain ⟨u, v, hu, -⟩ := content_finite hb
  have hscale : (0 : ℚ) < 2 ^ (-1074 : Int) := zpow_pos (by norm_num) _
  have hvalues : signedValue (hasSign a) s t < signedValue (hasSign b) u v
      ↔ signedUnits a < signedUnits b := by
    rw [(signedValue_eq hs).2, (signedValue_eq hu).2, mul_lt_mul_iff_left₀ hscale, Int.cast_lt]
  rw [hs, hu, ← hvalues]
  exact ⟨fun h => by cases h; assumption, .finite⟩

theorem rank_lt_of_below (h : (content a).Below (content b)) : totalRank a < totalRank b := by
  generalize ha : content a = c at h
  generalize hb : content b = d at h
  cases h with
  | bottom hnan hne =>
      rw [← hb, Ne, content_nan] at hnan
      rw [← hb, Ne, content_infinite] at hne
      obtain ⟨hlow, hsign⟩ := content_infinite.1 ha
      cases hother : hasSign b <;>
        simp only [hsign, hother, totalRank_of_sign, totalRank_of_no_sign] <;> grind
  | top hnan hne =>
      rw [← ha, Ne, content_nan] at hnan
      rw [← ha, Ne, content_infinite] at hne
      obtain ⟨hlow, hsign⟩ := content_infinite.1 hb
      cases hother : hasSign a <;>
        simp only [hsign, hother, totalRank_of_sign, totalRank_of_no_sign] <;> grind
  | finite h =>
      have hbelow : (content a).Below (content b) := by
        rw [ha, hb]
        exact .finite h
      have hiff := finite_below_iff (signedValue_eq ha).1 (signedValue_eq hb).1
      exact rank_lt_of_units (hiff.1 hbelow)

theorem totalRank_bounds (a : UInt64) : -1 - (low a : Int) ≤ totalRank a ∧ totalRank a ≤ low a := by
  cases h : hasSign a <;> simp only [h, totalRank_of_sign, totalRank_of_no_sign] <;> omega

theorem totalRank_inj (h : totalRank a = totalRank b) : a = b := by
  cases ha : hasSign a <;> cases hb : hasSign b <;>
    simp only [ha, hb, totalRank_of_sign, totalRank_of_no_sign] at h <;>
    first
    | exact eq_of_low (ha.trans hb.symm) (by omega)
    | omega

theorem below_or_zeros (ha : low a ≤ infinity) (hb : low b ≤ infinity)
    (h : totalRank a < totalRank b) :
    (content a).Below (content b) ∨ (a = 0x8000000000000000 ∧ b = 0) := by
  have hnumber : ∀ {a}, low a ≤ infinity → content a ≠ .nan := fun ha h =>
    absurd (content_nan.1 h) (not_lt.2 ha)
  have hdiffers : ∀ {sign}, content a = .infinite sign → content b ≠ .infinite sign := by
    intro sign ha hb
    obtain ⟨halow, hasign⟩ := content_infinite.1 ha
    obtain ⟨hblow, hbsign⟩ := content_infinite.1 hb
    rw [eq_of_low (hasign.trans hbsign.symm) (halow.trans hblow.symm)] at h
    exact lt_irrefl _ h
  have habounds := totalRank_bounds a
  have hbbounds := totalRank_bounds b
  rcases ha.lt_or_eq with hafinite | hatop
  · rcases hb.lt_or_eq with hbfinite | hbtop
    · rcases lt_trichotomy (signedUnits a) (signedUnits b) with hlt | heq | hgt
      · exact .inl ((finite_below_iff hafinite hbfinite).2 hlt)
      · -- Different patterns of one value are the two zeros.
        rcases eq_or_zeros_of_units heq with rfl | ⟨hazero, hbzero⟩
        · exact absurd h (lt_irrefl _)
        · refine .inr ⟨eq_of_low ?_ hazero, eq_of_low ?_ hbzero⟩ <;>
            cases hasign : hasSign a <;> cases hbsign : hasSign b <;>
            simp only [hasign, hbsign, totalRank_of_sign, totalRank_of_no_sign] at h <;>
            first
            | rfl
            | omega
      · exact absurd (rank_lt_of_units hgt) (lt_asymm h)
    · have hsign : hasSign b = false := by
        by_contra hsign
        rw [Bool.not_eq_false] at hsign
        rw [totalRank_of_sign hsign] at h
        omega
      have hcontent := content_infinite.2 ⟨hbtop, hsign⟩
      rw [hcontent]
      exact .inl (.top (hnumber ha) fun h => hdiffers h hcontent)
  · have hsign : hasSign a = true := by
      by_contra hsign
      rw [Bool.not_eq_true] at hsign
      rw [totalRank_of_no_sign hsign] at h
      omega
    have hcontent := content_infinite.2 ⟨hatop, hsign⟩
    rw [hcontent]
    exact .inl (.bottom (hnumber hb) (hdiffers hcontent))

theorem payload_of_nan (h : content a = .nan) : low a = infinity + payload a := by
  have ha := a.toNat_lt
  rw [content_nan] at h
  simp only [low, payload, infinity] at h ⊢
  omega

theorem TotalOrder.rank_le (h : TotalOrder a b) : totalRank a ≤ totalRank b := by
  have habounds := totalRank_bounds a
  have hbbounds := totalRank_bounds b
  cases h with
  | same h => rw [h]
  | below h => exact (rank_lt_of_below h).le
  | zeros ha hb =>
      rw [ha, hb]
      decide
  | first ha hb =>
      have hlow := content_nan.1 ha.1
      rw [totalRank_of_sign ha.2]
      cases hsign : hasSign b with
      | false =>
          rw [totalRank_of_no_sign hsign]
          omega
      | true =>
          have : ¬infinity < low b := fun h => hb ⟨content_nan.2 h, hsign⟩
          omega
  | last ha hb =>
      have hlow := content_nan.1 hb.1
      rw [totalRank_of_no_sign hb.2]
      cases hsign : hasSign a with
      | true =>
          rw [totalRank_of_sign hsign]
          omega
      | false =>
          have : ¬infinity < low a := fun h => ha ⟨content_nan.2 h, hsign⟩
          omega
  | signed ha hb h =>
      rw [totalRank_of_sign ha.2, totalRank_of_sign hb.2, payload_of_nan ha.1, payload_of_nan hb.1]
      omega
  | unsigned ha hb h =>
      rw [totalRank_of_no_sign ha.2, totalRank_of_no_sign hb.2, payload_of_nan ha.1,
        payload_of_nan hb.1]
      omega

theorem totalOrder_of_rank_lt (h : totalRank a < totalRank b) : TotalOrder a b := by
  have habounds := totalRank_bounds a
  have hbbounds := totalRank_bounds b
  rcases le_or_gt (low a) infinity with ha | ha <;> rcases le_or_gt (low b) infinity with hb | hb
  · rcases below_or_zeros ha hb h with hbelow | ⟨ha, hb⟩
    · exact .below hbelow
    · exact .zeros ha hb
  · refine .last (fun ⟨hnan, _⟩ => absurd (content_nan.1 hnan) (not_lt.2 ha))
      ⟨content_nan.2 hb, ?_⟩
    by_contra hsign
    rw [Bool.not_eq_false] at hsign
    rw [totalRank_of_sign hsign] at h
    omega
  · refine .first ⟨content_nan.2 ha, ?_⟩
      fun ⟨hnan, _⟩ => absurd (content_nan.1 hnan) (not_lt.2 hb)
    by_contra hsign
    rw [Bool.not_eq_true] at hsign
    rw [totalRank_of_no_sign hsign] at h
    omega
  · have hapayload := payload_of_nan (content_nan.2 ha)
    have hbpayload := payload_of_nan (content_nan.2 hb)
    cases hasign : hasSign a <;> cases hbsign : hasSign b <;>
      simp only [hasign, hbsign, totalRank_of_sign, totalRank_of_no_sign] at h
    · exact .unsigned ⟨content_nan.2 ha, hasign⟩ ⟨content_nan.2 hb, hbsign⟩ (by omega)
    · omega
    · exact .first ⟨content_nan.2 ha, hasign⟩ fun hb => by simp [IsNaN, hbsign] at hb
    · exact .signed ⟨content_nan.2 ha, hasign⟩ ⟨content_nan.2 hb, hbsign⟩ (by omega)

theorem totalRank_le_iff : totalRank a ≤ totalRank b ↔ TotalOrder a b := by
  refine ⟨fun h => ?_, TotalOrder.rank_le⟩
  rcases h.lt_or_eq with hlt | heq
  · exact totalOrder_of_rank_lt hlt
  · exact .same (totalRank_inj heq)

namespace TotalOrder

theorem trans {c : UInt64} (hab : TotalOrder a b) (hbc : TotalOrder b c) : TotalOrder a c :=
  totalRank_le_iff.1 (hab.rank_le.trans hbc.rank_le)

theorem antisymm (hab : TotalOrder a b) (hba : TotalOrder b a) : a = b :=
  totalRank_inj (hab.rank_le.antisymm hba.rank_le)

theorem total (a b : UInt64) : TotalOrder a b ∨ TotalOrder b a :=
  (le_total (totalRank a) (totalRank b)).imp totalRank_le_iff.1 totalRank_le_iff.1

end TotalOrder

end Order

end Pattern

theorem totalLe_iff {α : Type} [Bits α] {a b : α} :
    totalLe a b = true ↔ Pattern.TotalOrder (Bits.bits a) (Bits.bits b) := by
  rw [totalLe, decide_eq_true_eq, Pattern.totalRank_le_iff]

end Scenograph
