import Scenograph.Proofs.Json.Decimal
import Scenograph.Proofs.Number.Single
import Scenograph.Spelling.Literal

namespace Scenograph

open Json (IsDigits)

section Shapes

variable (negative : Bool) (text : String)

def Pointed : Prop :=
  ∃ whole fraction, IsDigits whole ∧ IsDigits fraction
    ∧ text.toList = withSign negative (whole ++ '.' :: fraction ++ ['F'])

def Bare : Prop :=
  ∃ ds, IsDigits ds ∧ text.toList = withSign negative (ds ++ ['F'])

def Worded : Prop :=
  text.toList = withSign negative ['i', 'n', 'f', 'F']

end Shapes

def IsFloatLiteral (text : String) : Prop :=
  ∃ negative, Pointed negative text

namespace Binary

def isNegative : Binary → Bool
  | .nan => false
  | .infinite negative | .finite negative _ _ => negative

def magnitude : Binary → ℚ
  | .finite _ s t => s * 2 ^ t
  | _ => 0

end Binary

def KeepsFraction (v : ℚ) : Prop :=
  ∀ n : Nat, ∃ w, IsSingle w ∧ |v - w| < |v - n|

def HasPoint (v : ℚ) : Prop :=
  (∃ n : Nat, n < 10 ^ 15 ∧ v = n) ∨ KeepsFraction v

structure FloatSpelling (content : Binary) (text : String) : Prop where
  literal_iff : IsFloatLiteral text ↔ HasPoint content.magnitude
  pointed : HasPoint content.magnitude → Pointed content.isNegative text
  bare : ¬HasPoint content.magnitude → content.magnitude < singleLimit →
    Bare content.isNegative text
  worded : singleLimit ≤ content.magnitude → Worded content.isNegative text

section Text

variable {text : String} {negative : Bool}

theorem IsFloatLiteral.point_mem (h : IsFloatLiteral text) : '.' ∈ text.toList := by
  obtain ⟨sign, whole, fraction, -, -, htext⟩ := h
  cases sign <;> simp [htext, withSign]

theorem Bare.not_literal (h : Bare negative text) : ¬IsFloatLiteral text := by
  intro hliteral
  obtain ⟨ds, hds, htext⟩ := h
  have hpoint := hliteral.point_mem
  have hdigits : '.' ∉ ds := fun hmem => by simpa using hds.digits _ hmem
  cases negative <;> simp [htext, withSign, hdigits] at hpoint

theorem Worded.not_literal (h : Worded negative text) : ¬IsFloatLiteral text := by
  intro hliteral
  have hpoint := hliteral.point_mem
  cases negative <;> simp [show text.toList = _ from h, withSign] at hpoint

end Text

namespace FloatSpelling

variable {content : Binary} {text : String}

theorem of_pointed (h : HasPoint content.magnitude) (hlimit : content.magnitude < singleLimit)
    (htext : Pointed content.isNegative text) : FloatSpelling content text where
  literal_iff := iff_of_true ⟨_, htext⟩ h
  pointed _ := htext
  bare hnone := absurd h hnone
  worded hlarge := absurd hlarge hlimit.not_ge

theorem of_bare (h : ¬HasPoint content.magnitude) (hlimit : content.magnitude < singleLimit)
    (htext : Bare content.isNegative text) : FloatSpelling content text where
  literal_iff := iff_of_false htext.not_literal h
  pointed hpoint := absurd hpoint h
  bare _ _ := htext
  worded hlarge := absurd hlarge hlimit.not_ge

theorem of_worded (h : ¬HasPoint content.magnitude) (hlimit : singleLimit ≤ content.magnitude)
    (htext : Worded content.isNegative text) : FloatSpelling content text where
  literal_iff := iff_of_false htext.not_literal h
  pointed hpoint := absurd hpoint h
  bare _ hsmall := absurd hlimit hsmall.not_ge
  worded _ := htext

end FloatSpelling

theorem not_keepsFraction_of_whole {v : ℚ} (h : IsWhole v) : ¬KeepsFraction v := by
  intro hkeeps
  obtain ⟨n, rfl⟩ := h
  obtain ⟨w, -, hw⟩ := hkeeps n
  rw [sub_self, abs_zero] at hw
  exact (abs_nonneg _).not_gt hw

theorem RoundsAt.keepsFraction_iff {v : ℚ} {m : Nat} {e : Int} (h : RoundsAt v m e)
    (hsingle : IsSingle (m * 2 ^ e)) : KeepsFraction v ↔ ¬IsWhole (m * 2 ^ e) := by
  constructor
  · rintro hkeeps ⟨n, hn⟩
    obtain ⟨w, hw, hlt⟩ := hkeeps n
    rw [← hn] at hlt
    exact (h.abs_le_single hw).not_gt hlt
  · exact fun hwhole n => ⟨_, hsingle, h.abs_lt_whole hwhole n⟩

section Content

variable {s : Nat} {t : Int}

theorem whole?_of_eq (negative : Bool) {n : Nat} (h : (s * 2 ^ t : ℚ) = n) :
    (Binary.finite negative s t).whole? = some (negative, n) := by
  rcases le_or_gt 0 t with ht | ht
  · obtain ⟨k, rfl⟩ := Int.eq_ofNat_of_zero_le ht
    rw [zpow_natCast] at h
    have hn : s * 2 ^ k = n := by exact_mod_cast h
    simp [Binary.whole?, hn]
  · obtain ⟨k, rfl⟩ : ∃ k : Nat, t = -k := ⟨(-t).toNat, by omega⟩
    rw [zpow_neg, zpow_natCast, ← div_eq_mul_inv, div_eq_iff (by positivity)] at h
    obtain rfl : s = n * 2 ^ k := by exact_mod_cast h
    have hpos : k ≠ 0 := by omega
    have hdiv : n * 2 ^ k / 2 ^ k = n := Nat.mul_div_cancel _ (Nat.two_pow_pos k)
    simp [Binary.whole?, hpos, hdiv]

theorem whole?_of_not_whole (negative : Bool) (h : ¬IsWhole (s * 2 ^ t)) :
    (Binary.finite negative s t).whole? = none := by
  have ht : t < 0 := by
    by_contra hle
    exact h (isWhole_of_exponent s (by omega))
  obtain ⟨k, rfl⟩ : ∃ k : Nat, t = -k := ⟨(-t).toNat, by omega⟩
  have hrest : s % 2 ^ k ≠ 0 := by
    intro hzero
    refine h ⟨s / 2 ^ k, ?_⟩
    rw [zpow_neg, zpow_natCast, ← div_eq_mul_inv, div_eq_iff (by positivity)]
    exact_mod_cast (Nat.div_mul_cancel (Nat.dvd_of_mod_eq_zero hzero)).symm
  have hpos : k ≠ 0 := by omega
  simp [Binary.whole?, hpos, hrest]

end Content

section Positional

variable {d : Decimal}

theorem positional_of_whole (h : 0 ≤ d.exponent) : IsDigits (d.positional false) := by
  simp only [Decimal.positional, if_pos h, Bool.false_eq_true, if_false]
  split
  · exact Json.digits_isDigits d
  · exact (Json.digits_isDigits d).append fun _ => Json.zeros_isDigit

theorem positional_of_places (h : d.exponent < 0) : ∃ whole fraction, IsDigits whole
    ∧ IsDigits fraction ∧ d.positional false = whole ++ '.' :: fraction := by
  have hds := Json.digits_isDigits d
  simp only [Decimal.positional, if_neg h.not_ge]
  split
  · next hshort =>
      refine ⟨_, _, ⟨?_, ?_⟩, ⟨?_, ?_⟩, rfl⟩
      · exact List.ne_nil_of_length_pos (by rw [List.length_take]; omega)
      · exact fun c hc => hds.digits c (List.mem_of_mem_take hc)
      · exact List.ne_nil_of_length_pos (by rw [List.length_drop]; omega)
      · exact fun c hc => hds.digits c (List.mem_of_mem_drop hc)
  · refine ⟨['0'], _, ⟨by simp, by simp⟩, ⟨by simp [hds.nonempty], fun c hc => ?_⟩, rfl⟩
    rcases List.mem_append.1 hc with hc | hc
    · exact Json.zeros_isDigit hc
    · exact hds.digits c hc

end Positional

theorem toList_suffixed (negative : Bool) (text : List Char) :
    (String.ofList (withSign negative text) ++ "F").toList = withSign negative (text ++ ['F']) := by
  rw [String.toList_append, String.toList_ofList, ← Json.withSign_append]
  rfl

section Spelling

variable {negative : Bool} {s : Nat} {t : Int}

theorem value_lt_limit {n : Nat} (hn : n < 10 ^ 15) : (n : ℚ) < singleLimit := by
  have hcast : (n : ℚ) < 10 ^ 15 := by exact_mod_cast hn
  norm_num [singleLimit] at hcast ⊢
  linarith

theorem spelling_of_small {n : Nat} (h : (s * 2 ^ t : ℚ) = n) (hn : n < 10 ^ 15) :
    FloatSpelling (.finite negative s t)
      (String.ofList (withSign negative (Nat.toDigits 10 n ++ ['.', '0'])) ++ "F") := by
  have hzero : IsDigits ['0'] := ⟨by simp, by simp⟩
  refine .of_pointed (.inl ⟨n, hn, h⟩) (h.trans_lt (value_lt_limit hn))
    ⟨_, ['0'], Json.isDigits_toDigits n, hzero, ?_⟩
  rw [toList_suffixed]
  rfl

theorem isWhole_of_limit_le (hs : s < 2 ^ 53) (h : singleLimit ≤ s * 2 ^ t) :
    IsWhole (s * 2 ^ t) := by
  refine isWhole_of_exponent s ?_
  by_contra ht
  have hpower : (2 : ℚ) ^ t ≤ 1 := zpow_le_one_of_nonpos₀ (by norm_num) (by omega)
  have hcast : (s : ℚ) < 2 ^ 53 := by exact_mod_cast hs
  have hsmall : (s * 2 ^ t : ℚ) ≤ s * 1 := mul_le_mul_of_nonneg_left hpower (by positivity)
  rw [singleLimit] at h
  linarith

theorem spelling_of_single (hpos : 0 < s) (hs : s < 2 ^ 53)
    (hlarge : ∀ n : Nat, (s * 2 ^ t : ℚ) = n → 10 ^ 15 ≤ n) :
    FloatSpelling (.finite negative s t) ((Binary.finite negative s t).plainSingleText ++ "F") := by
  have hpoint : HasPoint (s * 2 ^ t) ↔ KeepsFraction (s * 2 ^ t) :=
    ⟨fun h => h.resolve_left fun ⟨n, hn, hv⟩ => (hlarge n hv).not_gt hn, .inr⟩
  cases hsingle : toSingle s t with
  | none =>
      have hlimit := (toSingle_eq_none_iff hpos t).1 hsingle
      refine .of_worded ?_ hlimit ?_
      · rw [Binary.magnitude, hpoint]
        exact not_keepsFraction_of_whole (isWhole_of_limit_le hs hlimit)
      · rw [Worded, Binary.plainSingleText, hsingle, toList_suffixed]
        rfl
  | some rounded =>
      obtain ⟨m, e⟩ := rounded
      obtain ⟨hm, hfloor, htop, hvalue⟩ := toSingle_eq_some hpos hsingle
      have hlimit : (s * 2 ^ t : ℚ) < singleLimit := by
        rw [← not_le, ← toSingle_eq_none_iff hpos t, hsingle]
        simp
      have hkeeps : KeepsFraction (s * 2 ^ t) ↔ ¬IsWhole (m * 2 ^ e) := by
        rw [hvalue]
        exact (roundsAt_single hpos t).keepsFraction_iff ⟨m, e, hm, hfloor, htop, hvalue.symm⟩
      have htext : ((Binary.finite negative s t).plainSingleText ++ "F").toList
          = withSign negative ((Decimal.ofSingle .up m e).positional false ++ ['F']) := by
        rw [Binary.plainSingleText, hsingle, toList_suffixed]
      by_cases hexponent : 0 ≤ (Decimal.ofSingle .up m e).exponent
      · have hwhole := (ofSingle_exponent_iff hm .up).1 hexponent
        refine .of_bare ?_ hlimit ⟨_, positional_of_whole hexponent, htext⟩
        rw [Binary.magnitude, hpoint, hkeeps, not_not]
        exact hwhole
      · have hwhole := mt (ofSingle_exponent_iff hm .up).2 hexponent
        obtain ⟨whole, fraction, hw, hf, hdigits⟩ := positional_of_places (not_le.1 hexponent)
        refine .of_pointed ?_ hlimit ⟨whole, fraction, hw, hf, hdigits ▸ htext⟩
        rw [Binary.magnitude, hpoint, hkeeps]
        exact hwhole

theorem spelling_of_finite {x : Float} (hs : s < 2 ^ 53)
    (hx : Binary.ofFloat x = .finite negative s t) :
    FloatSpelling (Binary.ofFloat x) (numeral true x ++ "F") := by
  by_cases hwhole : IsWhole (s * 2 ^ t)
  · obtain ⟨n, hn⟩ := hwhole
    by_cases hsmall : n < 10 ^ 15
    · simp only [numeral, hx, whole?_of_eq negative hn, Nat.pow_eq, if_pos hsmall, if_true]
      exact spelling_of_small hn hsmall
    · have hpos : 0 < s := by
        refine Nat.pos_of_ne_zero fun hzero => hsmall ?_
        rw [hzero, Nat.cast_zero, zero_mul] at hn
        have : n = 0 := by exact_mod_cast hn.symm
        omega
      simp only [numeral, hx, whole?_of_eq negative hn, Nat.pow_eq, if_neg hsmall]
      refine spelling_of_single hpos hs fun n' hn' => ?_
      have : n' = n := by exact_mod_cast hn'.symm.trans hn
      omega
  · have hpos : 0 < s := by
      refine Nat.pos_of_ne_zero fun hzero => hwhole ⟨0, ?_⟩
      rw [hzero, Nat.cast_zero, zero_mul]
    simp only [numeral, hx, whole?_of_not_whole negative hwhole]
    exact spelling_of_single hpos hs fun n hn => absurd ⟨n, hn⟩ hwhole

end Spelling

theorem float_eq_numeral {language : Language} (h : language ≠ .csharp) (x : Float) :
    language.float x = numeral true x ++ "F" := by
  cases language with
  | csharp => exact absurd rfl h
  | cppWinRT => rfl
  | cppCX => rfl

theorem spelling_float {language : Language} (h : language ≠ .csharp) {x : Float}
    (hx : x.isFinite = true) : FloatSpelling (Binary.ofFloat x) (language.float x) := by
  rw [float_eq_numeral h]
  obtain ⟨sign, -, hzero⟩ | ⟨sign, s, t, hdouble, -, hfinite⟩ := finite_cases hx
  · exact spelling_of_finite (by norm_num) hzero
  · exact spelling_of_finite hdouble.lt hfinite

def Literal.vector? : Literal → Option (BuiltIn × List Float)
  | .vector2 v => some (.vector2, [v.x, v.y])
  | .vector3 v => some (.vector3, [v.x, v.y, v.z])
  | .vector4 v => some (.vector4, [v.x, v.y, v.z, v.w])
  | _ => none

theorem literal_vector {language : Language} (h : language ≠ .csharp) {literal : Literal}
    {type : BuiltIn} {components : List Float}
    (hvector : literal.vector? = some (type, components)) :
    language.literal literal
      = applied (language.builtInName type) (components.map language.float) := by
  have hmade : language.literal literal = language.vector type components := by
    cases literal <;> simp only [Literal.vector?, Option.some.injEq, Prod.mk.injEq, reduceCtorEq]
      at hvector <;> obtain ⟨rfl, rfl⟩ := hvector <;> rfl
  rw [hmade]
  cases language with
  | csharp => exact absurd rfl h
  | cppWinRT => rfl
  | cppCX => rfl

theorem floatSpelling_literal (language : Language) (hlanguage : language ≠ .csharp) :
    (∀ x : Float, x.isFinite = true →
      FloatSpelling (Binary.ofFloat x) (language.literal (.float x)))
    ∧ ∀ literal type components, Literal.vector? literal = some (type, components) →
      (∀ x ∈ components, x.isFinite = true) →
      ∃ texts, language.literal literal = applied (language.builtInName type) texts
        ∧ List.Forall₂ (fun x text => FloatSpelling (Binary.ofFloat x) text) components texts := by
  refine ⟨fun x hx => spelling_float hlanguage hx, ?_⟩
  intro literal type components hvector hfinite
  refine ⟨_, literal_vector hlanguage hvector, ?_⟩
  rw [List.forall₂_map_right_iff, List.forall₂_same]
  exact fun x hx => spelling_float hlanguage (hfinite x hx)

theorem floatSpelling_literal_quadrillion :
    (1e15 : Float).isFinite = true ∧ ¬IsFloatLiteral (Language.cppWinRT.literal (.float 1e15))
      ∧ ∃ first second, Language.cppCX.literal (.vector2 ⟨1e15, 0.5⟩)
          = applied "float2" [first, second]
        ∧ Bare false first ∧ FloatSpelling (Binary.ofFloat 0.5) second := by
  have hcontent : Binary.ofFloat 1e15 = .finite false 8000000000000000 (-3) := by decide +kernel
  have hlarge : (1e15 : Float).isFinite = true := by decide +kernel
  have hhalf : (0.5 : Float).isFinite = true := by decide +kernel
  have hvalue : (Binary.ofFloat 1e15).magnitude = (10 ^ 15 : Nat) := by
    rw [hcontent, Binary.magnitude]
    norm_num
  have hpoint : ¬HasPoint (Binary.ofFloat 1e15).magnitude := by
    rw [hvalue]
    rintro (⟨n, hn, hequal⟩ | hkeeps)
    · exact hn.ne' (by exact_mod_cast hequal)
    · exact not_keepsFraction_of_whole ⟨_, rfl⟩ hkeeps
  refine ⟨hlarge, ?_, ?_⟩
  · rw [((floatSpelling_literal .cppWinRT (by decide)).1 1e15 hlarge).literal_iff]
    exact hpoint
  · obtain ⟨texts, htext, hspelled⟩ := (floatSpelling_literal .cppCX (by decide)).2
      (.vector2 ⟨1e15, 0.5⟩) .vector2 [1e15, 0.5] rfl (by simp [hlarge, hhalf])
    obtain ⟨first, _, hfirst, hrest, rfl⟩ := List.forall₂_cons_left_iff.1 hspelled
    obtain ⟨second, _, hsecond, hnone, rfl⟩ := List.forall₂_cons_left_iff.1 hrest
    obtain rfl := List.forall₂_nil_left_iff.1 hnone
    refine ⟨first, second, htext, ?_, hsecond⟩
    have hbare := hfirst.bare hpoint (by rw [hvalue]; norm_num [singleLimit])
    rwa [hcontent] at hbare

end Scenograph
