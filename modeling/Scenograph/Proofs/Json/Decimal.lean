import Mathlib.Tactic.FieldSimp
import Mathlib.Tactic.Positivity
import Scenograph.Proofs.Json.Numeral
import Scenograph.Proofs.Number.Shortest

namespace Scenograph.Json

open Float.Model Float.Model.UnpackedFloat

inductive Spells : List Char → Decimal → Prop
  | parts (whole : List Char) (fraction : Option (List Char)) (exponent : Option Int)
      (hwhole : IsDigits whole) (hlead : whole = ['0'] ∨ whole.head? ≠ some '0')
      (hfraction : ∀ ds ∈ fraction, IsDigits ds) (hmark : fraction.isSome ∨ exponent.isSome) :
      Spells (whole ++ (fractionText fraction ++ exponentText exponent))
        ⟨digitsValue (whole ++ fraction.getD []), exponent.getD 0 - (fraction.getD []).length⟩

theorem Spells.readUnsigned {text : List Char} {d : Decimal} (h : Spells text d) (negative : Bool)
    {rest : List Char} (hrest : EndsNumber rest) :
    readUnsigned negative (text ++ rest) = some (.float (d.toFloat negative), rest) := by
  cases h with
  | parts whole fraction exponent hwhole hlead hfraction hmark =>
      have hvalue : numberValue negative whole fraction exponent
          = .float (Decimal.toFloat negative ⟨digitsValue (whole ++ fraction.getD []),
            exponent.getD 0 - (fraction.getD []).length⟩) := by
        cases fraction with
        | some ds => rfl
        | none =>
            cases exponent with
            | some e => rfl
            | none => simp at hmark
      have hread := readUnsigned_append negative fraction exponent hwhole hlead hfraction hrest
      rw [hvalue] at hread
      simpa using hread

theorem Spells.head {text : List Char} {d : Decimal} (h : Spells text d) :
    ∃ c cs, text = c :: cs ∧ c.isDigit = true := by
  cases h with
  | parts whole fraction exponent hwhole => exact hwhole.head _

theorem digits_isDigits (d : Decimal) : IsDigits d.digits :=
  isDigits_toDigits _

theorem zeros_isDigit {n : Nat} {c : Char} (hc : c ∈ Decimal.zeros n) : c.isDigit = true := by
  rw [List.eq_of_mem_replicate hc]
  rfl

theorem lead_digits (d : Decimal) (h : 1 < d.digits.length) : d.digits.head? ≠ some '0' := by
  refine head_toDigits fun hzero => ?_
  simp [Decimal.digits, hzero] at h

theorem spells_scientific (d : Decimal) : Spells d.scientific d := by
  obtain ⟨c, cs, hds⟩ := List.exists_cons_of_ne_nil (digits_isDigits d).nonempty
  have hdigit : ∀ b ∈ c :: cs, b.isDigit = true := hds ▸ (digits_isDigits d).digits
  have hone : IsDigits [c] := ⟨by simp, fun b hb => hdigit b (by simp_all)⟩
  have hlead : [c] = ['0'] ∨ [c].head? ≠ some '0' := by
    by_cases hc : c = '0' <;> simp [hc]
  have hvalue : digitsValue (c :: cs) = d.coefficient := by
    rw [← hds, Decimal.digits, digitsValue_toDigits]
  cases cs with
  | nil =>
      have hspell := Spells.parts [c] none (some d.leading) hone hlead (by simp) (by simp)
      have hexponent : d.leading = d.exponent := by simp [Decimal.leading, hds]
      simpa [Decimal.scientific, hds, hvalue, fractionText, exponentText, hexponent] using hspell
  | cons b cs =>
      have hrest : IsDigits (b :: cs) :=
        ⟨by simp, fun c' hc' => hdigit c' (List.mem_cons_of_mem _ hc')⟩
      have hspell := Spells.parts [c] (some (b :: cs)) (some d.leading) hone hlead
        (by simpa using hrest) (by simp)
      have hexponent : d.leading - ((cs.length : Int) + 1) = d.exponent := by
        simp [Decimal.leading, hds]
        omega
      simpa [Decimal.scientific, hds, hvalue, fractionText, exponentText, hexponent] using hspell

theorem spells_tenths {whole : List Char} (hwhole : IsDigits whole)
    (hlead : whole = ['0'] ∨ whole.head? ≠ some '0') :
    Spells (whole ++ ['.', '0']) ⟨digitsValue whole * 10, -1⟩ := by
  have hzero : IsDigits ['0'] := ⟨by simp, by simp⟩
  have hspell := Spells.parts whole (some ['0']) none hwhole hlead (by simpa using hzero) (by simp)
  have hvalue : digitsValue (whole ++ ['0']) = digitsValue whole * 10 := by
    rw [digitsValue_append]
    rfl
  simpa [fractionText, exponentText, hvalue] using hspell

theorem spells_whole {d : Decimal} (hd : 0 ≤ d.exponent) :
    ∃ d' : Decimal, d'.value = d.value ∧ Spells (d.positional true) d' := by
  obtain ⟨k, hk⟩ := Int.eq_ofNat_of_zero_le hd
  obtain ⟨whole, htext, hwhole, hlead, hvalue⟩ : ∃ whole, d.positional true = whole ++ ['.', '0']
      ∧ IsDigits whole ∧ (whole = ['0'] ∨ whole.head? ≠ some '0')
      ∧ digitsValue whole = d.coefficient * 10 ^ k := by
    by_cases hc : d.coefficient = 0
    · refine ⟨['0'], ?_, ⟨by simp, by simp⟩, .inl rfl, by simp [hc, digitsValue]⟩
      simp [Decimal.positional, hd, hc, Decimal.digits]
    · refine ⟨d.digits ++ Decimal.zeros k, ?_, ?_, .inr ?_, ?_⟩
      · simp [Decimal.positional, hk, hc]
      · exact (digits_isDigits d).append fun _ => zeros_isDigit
      · rw [List.head?_append_of_ne_nil _ (digits_isDigits d).nonempty]
        exact head_toDigits hc
      · rw [digitsValue_append, digitsValue_zeros, Decimal.digits, digitsValue_toDigits]
        simp [Decimal.zeros]
  refine ⟨⟨digitsValue whole * 10, -1⟩, ?_, htext ▸ spells_tenths hwhole hlead⟩
  rw [Decimal.value, Decimal.value, hvalue, hk]
  push_cast
  rw [zpow_natCast, zpow_neg_one]
  field_simp

theorem spells_split {d : Decimal} {places : Nat} (hplaces : d.exponent = -places)
    (hpos : 0 < places) (hshort : places < d.digits.length) : Spells (d.positional true) d := by
  obtain ⟨n, hn⟩ : ∃ n, n = d.digits.length - places := ⟨_, rfl⟩
  have htext : d.positional true = d.digits.take n ++ '.' :: d.digits.drop n := by
    simp [Decimal.positional, hplaces, hpos.ne', hshort, hn]
  have hwhole : IsDigits (d.digits.take n) :=
    ⟨List.ne_nil_of_length_pos (by rw [List.length_take]; omega),
      fun c hc => (digits_isDigits d).digits c (List.mem_of_mem_take hc)⟩
  have hfraction : IsDigits (d.digits.drop n) :=
    ⟨List.ne_nil_of_length_pos (by rw [List.length_drop]; omega),
      fun c hc => (digits_isDigits d).digits c (List.mem_of_mem_drop hc)⟩
  have hlead : (d.digits.take n).head? ≠ some '0' := by
    rw [List.head?_take, if_neg (by omega)]
    exact lead_digits d (by omega)
  have hspell := Spells.parts _ (some (d.digits.drop n)) none hwhole (.inr hlead)
    (by simpa using hfraction) (by simp)
  have hvalue : digitsValue d.digits = d.coefficient := digitsValue_toDigits _
  have hlength : ((d.digits.length - n : Nat) : Int) = places := by omega
  simpa [htext, fractionText, exponentText, hvalue, hlength, ← hplaces] using hspell

theorem spells_padded {d : Decimal} {places : Nat} (hplaces : d.exponent = -places)
    (hpos : 0 < places) (hlong : ¬places < d.digits.length) : Spells (d.positional true) d := by
  obtain ⟨n, hn⟩ : ∃ n, n = places - d.digits.length := ⟨_, rfl⟩
  have htext : d.positional true = '0' :: '.' :: (Decimal.zeros n ++ d.digits) := by
    simp [Decimal.positional, hplaces, hpos.ne', hlong, hn]
  have hzero : IsDigits ['0'] := ⟨by simp, by simp⟩
  have hfraction : IsDigits (Decimal.zeros n ++ d.digits) :=
    ⟨by simp [(digits_isDigits d).nonempty], fun c hc => by
      rcases List.mem_append.1 hc with hc | hc
      · exact zeros_isDigit hc
      · exact (digits_isDigits d).digits c hc⟩
  have hspell := Spells.parts ['0'] (some (Decimal.zeros n ++ d.digits)) none hzero (.inl rfl)
    (by simpa using hfraction) (by simp)
  have hvalue : digitsValue ('0' :: (Decimal.zeros n ++ d.digits)) = d.coefficient := by
    have hnone : digitsValue ('0' :: Decimal.zeros n) = 0 := digitsValue_zeros (n + 1)
    rw [← List.cons_append, digitsValue_append, Decimal.digits, digitsValue_toDigits, hnone,
      zero_mul, zero_add]
  have hlength : ((Decimal.zeros n).length + d.digits.length : Int) = places := by
    rw [Decimal.zeros, List.length_replicate]
    omega
  simpa [htext, fractionText, exponentText, hvalue, hlength, ← hplaces] using hspell

theorem spells_positional (d : Decimal) :
    ∃ d' : Decimal, d'.value = d.value ∧ Spells (d.positional true) d' := by
  by_cases hd : 0 ≤ d.exponent
  · exact spells_whole hd
  · obtain ⟨places, hplaces⟩ := Int.eq_ofNat_of_zero_le (by omega : 0 ≤ -d.exponent)
    have hexponent : d.exponent = -places := by omega
    refine ⟨d, rfl, ?_⟩
    by_cases hshort : places < d.digits.length
    · exact spells_split hexponent (by omega) hshort
    · exact spells_padded hexponent (by omega) hshort

def layout (d : Decimal) : List Char :=
  if -5 ≤ d.leading ∧ d.leading ≤ 15 then d.positional true else d.scientific

theorem spells_layout (d : Decimal) :
    ∃ d' : Decimal, d'.value = d.value ∧ Spells (layout d) d' := by
  unfold layout
  split
  · exact spells_positional d
  · exact ⟨d, rfl, spells_scientific d⟩

theorem floatText_layout {x : Float} {negative : Bool} {s : Nat} {t : Int}
    (h : Binary.ofFloat x = .finite negative s t) :
    floatText x = withSign negative (layout (Decimal.ofDouble .even s t)) := by
  simp [floatText, h, Binary.dataText?, layout]

theorem toFloat_zero {d : Decimal} (h : d.value = 0) (sign : Sign) :
    d.toFloat (negates sign) = .ofModel (.pack (.zero sign)) := by
  have hten : (10 : ℚ) ^ d.exponent ≠ 0 := by positivity
  have hzero : d.coefficient = 0 := by
    exact_mod_cast (mul_eq_zero.1 h).resolve_right hten
  simp only [Decimal.toFloat, hzero, if_true]
  rw [← Float.toBits_inj]
  cases sign <;> decide +kernel

theorem floatText_spells {x : Float} (hx : x.isFinite = true) : ∃ negative text d,
    floatText x = withSign negative text ∧ Spells text d ∧ d.toFloat negative = x := by
  rcases finite_cases hx with ⟨sign, hunpack, hcontent⟩ | ⟨sign, s, t, h, hunpack, hcontent⟩
  · obtain ⟨d, hvalue, hspell⟩ := spells_layout (Decimal.ofDouble .even 0 (-1074))
    refine ⟨_, _, d, floatText_layout hcontent, hspell, ?_⟩
    have hzero : (Decimal.ofDouble .even 0 (-1074)).value = 0 := by
      simp [Decimal.ofDouble, Neighbourhood.shortest, Neighbourhood.of, Decimal.value]
    rw [toFloat_zero (hvalue.trans hzero), ← hunpack, ofModel_pack_unpack]
  · obtain ⟨d, hvalue, hspell⟩ := spells_layout (Decimal.ofDouble .even s t)
    refine ⟨_, _, d, floatText_layout hcontent, hspell, ?_⟩
    have hholds : (doubleAt s t).Holds d.value := hvalue ▸ ofDouble_holds h .even
    rw [Decimal.toFloat_eq h hholds, double, ← hunpack, ofModel_pack_unpack]

theorem startsNumber_floatText {x : Float} (hx : x.isFinite = true) :
    StartsNumber (floatText x) := by
  obtain ⟨negative, text, d, htext, hspell, -⟩ := floatText_spells hx
  obtain ⟨c, cs, rfl, hc⟩ := hspell.head
  rw [htext]
  cases negative with
  | true => exact ⟨'-', c :: cs, rfl, .inl rfl⟩
  | false => exact ⟨c, cs, rfl, .inr hc⟩

theorem readNumber_floatText {x : Float} (hx : x.isFinite = true) {rest : List Char}
    (hrest : EndsNumber rest) : readNumber (floatText x ++ rest) = some (.float x, rest) := by
  obtain ⟨negative, text, d, htext, hspell, hvalue⟩ := floatText_spells hx
  have hhead : (text ++ rest).head? ≠ some '-' := by
    obtain ⟨c, cs, rfl, hc⟩ := hspell.head
    rintro ⟨⟩
    cases hc
  rw [htext, withSign_append, readNumber_withSign _ hhead, hspell.readUnsigned negative hrest,
    hvalue]

end Scenograph.Json
