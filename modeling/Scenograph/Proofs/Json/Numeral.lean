import Mathlib.Algebra.Group.Nat.Defs
import Mathlib.Data.List.Basic
import Mathlib.Data.List.TakeDrop
import Mathlib.Data.Nat.Init
import Scenograph.Json.Reader

namespace Scenograph.Json

structure IsDigits (ds : List Char) : Prop where
  nonempty : ds ≠ []
  digits : ∀ c ∈ ds, c.isDigit = true

def EndsNumber (rest : List Char) : Prop :=
  ∀ c ∈ rest.head?, c.isDigit = false ∧ c ≠ '.' ∧ c ≠ 'e' ∧ c ≠ 'E'

theorem endsNumber_nil : EndsNumber [] := by
  simp [EndsNumber]

theorem endsNumber_cons {c : Char} {rest : List Char}
    (h : c.isDigit = false ∧ c ≠ '.' ∧ c ≠ 'e' ∧ c ≠ 'E') : EndsNumber (c :: rest) := by
  simpa [EndsNumber] using h

theorem isDigits_toDigits (n : Nat) : IsDigits (Nat.toDigits 10 n) :=
  ⟨Nat.toDigits_ne_nil, fun _ hc => Nat.isDigit_of_mem_toDigits (by decide) (by decide) hc⟩

theorem IsDigits.append {ds es : List Char} (hds : IsDigits ds)
    (hes : ∀ c ∈ es, c.isDigit = true) : IsDigits (ds ++ es) := by
  refine ⟨by simp [hds.nonempty], fun c hc => ?_⟩
  rcases List.mem_append.1 hc with hc | hc
  · exact hds.digits c hc
  · exact hes c hc

theorem head_toDigits {n : Nat} (hn : n ≠ 0) : (Nat.toDigits 10 n).head? ≠ some '0' := by
  induction n using Nat.strong_induction_on with
  | _ n ih =>
      by_cases hlt : n < 10
      · rw [Nat.toDigits_of_lt_base hlt]
        simpa [Nat.digitChar_eq_zero] using hn
      · rw [Nat.toDigits_of_base_le (by decide) (by omega),
          List.head?_append_of_ne_nil _ Nat.toDigits_ne_nil]
        exact ih (n / 10) (by omega) (by omega)

theorem digitsValue_eq (ds : List Char) : digitsValue ds = Nat.ofDigitChars 10 ds 0 := by
  simp [digitsValue, Nat.ofDigitChars_eq_foldl, Nat.mul_comm]

@[simp] theorem digitsValue_toDigits (n : Nat) : digitsValue (Nat.toDigits 10 n) = n := by
  rw [digitsValue_eq, Nat.ofDigitChars_ten_toDigits]

theorem digitsValue_append (ds es : List Char) :
    digitsValue (ds ++ es) = digitsValue ds * 10 ^ es.length + digitsValue es := by
  rw [digitsValue_eq, digitsValue_eq, digitsValue_eq, Nat.ofDigitChars_append,
    Nat.ofDigitChars_eq_ofDigitChars_zero, Nat.mul_comm]

theorem digitsValue_zeros (n : Nat) : digitsValue (Decimal.zeros n) = 0 := by
  rw [digitsValue_eq, Decimal.zeros, Nat.ofDigitChars_replicate_zero, Nat.mul_zero]

section Reading

variable {ds rest : List Char}

theorem readDigits_append (hds : IsDigits ds) (hrest : ∀ c ∈ rest.head?, c.isDigit = false) :
    readDigits (ds ++ rest) = some (ds, rest) := by
  have hspan : (ds ++ rest).span Char.isDigit = (ds, rest) := by
    rw [List.span_eq_takeWhile_dropWhile, List.takeWhile_append_of_pos hds.digits,
      List.dropWhile_append_of_pos hds.digits]
    cases rest with
    | nil => simp
    | cons c rest =>
        have hc : c.isDigit = false := hrest c (by simp)
        simp [hc]
  unfold readDigits
  rw [hspan]
  cases ds with
  | nil => exact absurd rfl hds.nonempty
  | cons c ds => rfl

theorem readWhole_append (hds : IsDigits ds) (hlead : ds = ['0'] ∨ ds.head? ≠ some '0')
    (hrest : ∀ c ∈ rest.head?, c.isDigit = false) : readWhole (ds ++ rest) = some (ds, rest) := by
  rcases hlead with rfl | hlead
  · cases rest with
    | nil => rfl
    | cons c rest =>
        have hc : c.isDigit = false := hrest c (by simp)
        simp [readWhole, hc]
  · have hread := readDigits_append hds hrest
    unfold readWhole
    split
    · next rest' heq =>
        cases ds with
        | nil => exact absurd rfl hds.nonempty
        | cons c ds =>
            cases heq
            exact absurd rfl hlead
    · exact hread

def fractionText : Option (List Char) → List Char
  | none => []
  | some ds => '.' :: ds

def exponentText : Option Int → List Char
  | none => []
  | some e => 'e' :: (if e < 0 then '-' else '+') :: Nat.toDigits 10 e.natAbs

theorem readFraction_append {fraction : Option (List Char)} (h : ∀ ds ∈ fraction, IsDigits ds)
    (hrest : ∀ c ∈ rest.head?, c.isDigit = false ∧ c ≠ '.') :
    readFraction (fractionText fraction ++ rest) = some (fraction, rest) := by
  cases fraction with
  | none =>
      rw [fractionText, List.nil_append]
      unfold readFraction
      split
      · next rest' => exact absurd rfl (hrest '.' (by simp)).2
      · rfl
  | some ds =>
      have hread := readDigits_append (h ds rfl) fun c hc => (hrest c hc).1
      simp [fractionText, readFraction, hread]

theorem readExponent_append {exponent : Option Int} (hrest : EndsNumber rest) :
    readExponent (exponentText exponent ++ rest) = some (exponent, rest) := by
  cases exponent with
  | none =>
      rw [exponentText, List.nil_append]
      unfold readExponent
      split
      · next rest' => exact absurd rfl (hrest 'e' (by simp)).2.2.1
      · next rest' => exact absurd rfl (hrest 'E' (by simp)).2.2.2
      · rfl
  | some e =>
      have hread := readDigits_append (isDigits_toDigits e.natAbs) fun c hc => (hrest c hc).1
      by_cases he : e < 0
      · have hvalue : -(e.natAbs : Int) = e := by omega
        simp only [exponentText, if_pos he, List.cons_append, readExponent, readSigned, hread,
          Option.map_some, digitsValue_toDigits, hvalue]
      · have hvalue : (e.natAbs : Int) = e := by omega
        simp only [exponentText, if_neg he, List.cons_append, readExponent, readSigned, hread,
          Option.map_some, digitsValue_toDigits, hvalue]

theorem exponentText_head (exponent : Option Int) (hrest : EndsNumber rest) :
    ∀ c ∈ (exponentText exponent ++ rest).head?, c.isDigit = false ∧ c ≠ '.' := by
  cases exponent with
  | none => exact fun c hc => ⟨(hrest c hc).1, (hrest c hc).2.1⟩
  | some e => simp [exponentText]

theorem readUnsigned_append (negative : Bool) (fraction : Option (List Char))
    (exponent : Option Int) (hds : IsDigits ds) (hlead : ds = ['0'] ∨ ds.head? ≠ some '0')
    (hfraction : ∀ ds ∈ fraction, IsDigits ds) (hrest : EndsNumber rest) :
    readUnsigned negative (ds ++ (fractionText fraction ++ (exponentText exponent ++ rest)))
      = some (numberValue negative ds fraction exponent, rest) := by
  have hhead := exponentText_head exponent hrest
  have hdigit : ∀ c ∈ (fractionText fraction ++ (exponentText exponent ++ rest)).head?,
      c.isDigit = false := by
    cases fraction with
    | none => exact fun c hc => (hhead c hc).1
    | some es => simp [fractionText]
  simp [readUnsigned, readWhole_append hds hlead hdigit, readFraction_append hfraction hhead,
    readExponent_append hrest]

end Reading

theorem readNumber_withSign (negative : Bool) {cs : List Char} (h : cs.head? ≠ some '-') :
    readNumber (withSign negative cs) = readUnsigned negative cs := by
  cases negative with
  | true => rfl
  | false =>
      rw [withSign, if_neg Bool.false_ne_true]
      unfold readNumber
      split
      · next rest => exact absurd rfl h
      · rfl

theorem withSign_append (negative : Bool) (cs rest : List Char) :
    withSign negative cs ++ rest = withSign negative (cs ++ rest) := by
  cases negative <;> rfl

theorem IsDigits.head {ds : List Char} (h : IsDigits ds) (rest : List Char) :
    ∃ c cs, ds ++ rest = c :: cs ∧ c.isDigit = true := by
  cases ds with
  | nil => exact absurd rfl h.nonempty
  | cons c ds => exact ⟨c, ds ++ rest, rfl, h.digits c (List.mem_cons_self ..)⟩

theorem IsDigits.head_ne {ds : List Char} (h : IsDigits ds) (rest : List Char) :
    (ds ++ rest).head? ≠ some '-' := by
  obtain ⟨c, cs, heq, hc⟩ := h.head rest
  rw [heq, List.head?_cons]
  rintro ⟨⟩
  cases hc

theorem lead_toDigits (n : Nat) :
    Nat.toDigits 10 n = ['0'] ∨ (Nat.toDigits 10 n).head? ≠ some '0' := by
  by_cases hn : n = 0
  · exact .inl (by simp [hn])
  · exact .inr (head_toDigits hn)

theorem numberValue_whole (n : Int) :
    numberValue (decide (n < 0)) (Nat.toDigits 10 n.natAbs) none none = .int n := by
  by_cases hn : n < 0
  · have hne : n.natAbs ≠ 0 := by omega
    have hvalue : -(n.natAbs : Int) = n := by omega
    simp only [numberValue, digitsValue_toDigits, hn, decide_true, if_true, if_neg hne, hvalue]
  · have hvalue : (n.natAbs : Int) = n := by omega
    simp only [numberValue, digitsValue_toDigits, hn, decide_false, Bool.false_eq_true, if_false,
      hvalue]

theorem readNumber_intText (n : Int) {rest : List Char} (hrest : EndsNumber rest) :
    readNumber (intText n ++ rest) = some (.int n, rest) := by
  have hds := isDigits_toDigits n.natAbs
  have hread := readUnsigned_append (decide (n < 0)) none none hds (lead_toDigits _) (by simp) hrest
  rw [numberValue_whole] at hread
  rw [intText, withSign_append, readNumber_withSign _ (hds.head_ne rest)]
  exact hread

def StartsNumber (cs : List Char) : Prop :=
  ∃ c ds, cs = c :: ds ∧ (c = '-' ∨ c.isDigit = true)

theorem startsNumber_ne {c : Char} (hc : c = '-' ∨ c.isDigit = true) {k : Char}
    (hk : k.isDigit = false) (hminus : k ≠ '-') : c ≠ k := by
  rintro rfl
  rcases hc with hc | hc
  · exact hminus hc
  · exact Bool.false_ne_true (hk.symm.trans hc)

theorem startsNumber_intText (n : Int) : StartsNumber (intText n) := by
  obtain ⟨c, ds, heq, hc⟩ := (isDigits_toDigits n.natAbs).head []
  rw [List.append_nil] at heq
  rw [intText, heq]
  by_cases hn : n < 0
  · exact ⟨'-', c :: ds, by simp [withSign, hn], .inl rfl⟩
  · exact ⟨c, ds, by simp [withSign, hn], .inr hc⟩

end Scenograph.Json
