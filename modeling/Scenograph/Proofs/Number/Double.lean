import Scenograph.Proofs.Number.Rounding

namespace Scenograph

open Float.Model Float.Model.UnpackedFloat

section Fields

variable (b : BitVec 64)

theorem unpackMantissa_toNat : (@unpackMantissa Format.binary64 b).toNat = b.toNat % 2 ^ 52 := by
  simp [unpackMantissa_def]

theorem unpackExponent_toNat :
    (@unpackExponent Format.binary64 b).toNat = b.toNat / 2 ^ 52 % 2 ^ 11 := by
  simp [unpackExponent_def, Nat.shiftRight_eq_div_pow]

theorem unpackSign_toNat : (@unpackSign Format.binary64 b).toNat = b.toNat / 2 ^ 63 % 2 := by
  simp [unpackSign_def, Nat.shiftRight_eq_div_pow]

theorem append_one_toNat (m : BitVec 52) : (1#1 ++ m).toNat = 2 ^ 52 + m.toNat := by
  rw [BitVec.toNat_append, ← Nat.shiftLeft_add_eq_or_of_lt m.isLt]
  rfl

end Fields

def negates : Sign → Bool
  | .negative => true
  | .positive => false

theorem negates_ofBitVec (b : BitVec 1) : negates (Sign.ofBitVec b) = decide (b.toNat = 1) := by
  revert b
  decide

structure IsDouble (s : Nat) (t : Int) : Prop extends Canonical s t where
  top : t ≤ 971

theorem ofBits_finite {b : BitVec 64} {sign : Sign} {s : Nat} {t : Int}
    (hs : Sign.ofBitVec (@unpackSign Format.binary64 b) = sign)
    (h : (b.toNat / 2 ^ 52 % 2 ^ 11 = 0 ∧ s = b.toNat % 2 ^ 52 ∧ t = -1074)
      ∨ (b.toNat / 2 ^ 52 % 2 ^ 11 ≠ 0 ∧ b.toNat / 2 ^ 52 % 2 ^ 11 ≠ 2047
        ∧ s = 2 ^ 52 + b.toNat % 2 ^ 52 ∧ t = (b.toNat / 2 ^ 52 % 2 ^ 11 : Nat) - 1075)) :
    Binary.ofBits b.toNat = .finite (negates sign) s t := by
  rw [← hs, negates_ofBitVec, unpackSign_toNat]
  rcases h with ⟨hE, rfl, rfl⟩ | ⟨hE, hE', rfl, rfl⟩
  · simp only [Binary.ofBits, Nat.pow_eq, hE]
    rfl
  · simp only [Binary.ofBits, Nat.pow_eq, if_neg hE, if_neg hE']

theorem unpack_cases (b : BitVec 64)
    (h : (UnpackedFloat.unpack Format.binary64 b).isFinite = true) :
    (∃ sign, UnpackedFloat.unpack Format.binary64 b = .zero sign
      ∧ Binary.ofBits b.toNat = .finite (negates sign) 0 (-1074))
    ∨ ∃ sign s t, ∃ h : IsDouble s t,
      UnpackedFloat.unpack Format.binary64 b = .finite sign s t h.pos
        ∧ Binary.ofBits b.toNat = .finite (negates sign) s t := by
  have hM := unpackMantissa_toNat b
  have hE := unpackExponent_toNat b
  revert h
  fun_cases UnpackedFloat.unpack Format.binary64 b with
  | case1 => simp [UnpackedFloat.isFinite]
  | case2 => simp [UnpackedFloat.isFinite]
  | case3 mantissa exponent signBit sign hones hzero hnone =>
      intro _
      have hE0 : exponent.toNat = 0 := by rw [hzero]; rfl
      have hM0 : mantissa.toNat = 0 := by rw [hnone]; rfl
      exact .inl ⟨sign, rfl, ofBits_finite rfl (.inl ⟨hE ▸ hE0, hM ▸ hM0.symm, rfl⟩)⟩
  | case4 mantissa exponent biased signBit sign hones hzero hsome =>
      intro _
      have hE0 : exponent.toNat = 0 := by rw [hzero]; rfl
      have hM0 : mantissa.toNat ≠ 0 := fun h => hsome (BitVec.eq_of_toNat_eq h)
      have hlt : mantissa.toNat < 2 ^ 52 := mantissa.isLt
      have hbiased : biased + 1 = -1074 := by
        simp only [biased, hE0]
        rfl
      exact .inr ⟨sign, mantissa.toNat, biased + 1,
        ⟨⟨by omega, by omega, by omega, .inr hbiased⟩, by omega⟩, rfl,
        ofBits_finite rfl (.inl ⟨hE ▸ hE0, hM, hbiased⟩)⟩
  | case5 mantissa exponent biased signBit sign hones hzero =>
      intro _
      have hE0 : exponent.toNat ≠ 0 := fun h => hzero (BitVec.eq_of_toNat_eq h)
      have hE2047 : exponent.toNat ≠ 2047 := fun h => hones (BitVec.eq_of_toNat_eq h)
      have hElt : exponent.toNat < 2 ^ 11 := exponent.isLt
      have hlt : mantissa.toNat < 2 ^ 52 := mantissa.isLt
      have happend : (1#1 ++ mantissa).toNat = 2 ^ 52 + mantissa.toNat := append_one_toNat mantissa
      have hbiased : biased = (exponent.toNat : Int) - 1075 := rfl
      exact .inr ⟨sign, (1#1 ++ mantissa).toNat, biased,
        ⟨⟨by omega, by omega, by omega, .inl (by omega)⟩, by omega⟩, rfl,
        ofBits_finite rfl (.inr ⟨hE ▸ hE0, hE ▸ hE2047, hM ▸ happend, hE ▸ hbiased⟩)⟩

theorem finite_cases {x : Float} (hx : x.isFinite = true) :
    (∃ sign, x.toModel.unpack = .zero sign ∧ Binary.ofFloat x = .finite (negates sign) 0 (-1074))
    ∨ ∃ sign s t, ∃ h : IsDouble s t, x.toModel.unpack = .finite sign s t h.pos
        ∧ Binary.ofFloat x = .finite (negates sign) s t :=
  unpack_cases x.toModel.toBits.toBitVec hx

theorem ofModel_pack_unpack (x : Float) : Float.ofModel (.pack x.toModel.unpack) = x := by
  rw [← Float.toBits_inj]
  exact UInt64.toBitVec_inj.1 (pack_unpack_of_valid x.toModel.valid)

theorem unpack_normal (sign : Sign) {biased s : Nat} (hpos : 0 < biased) (hlt : biased < 2047)
    (hlow : 2 ^ 52 ≤ s) (hhigh : s < 2 ^ 53) {t : Int} (ht : (biased : Int) - 1075 = t) :
    UnpackedFloat.unpack Format.binary64
        (packComponents Format.binary64 sign (BitVec.ofNat 11 biased) (BitVec.ofNat 52 s))
      = .finite sign s t (by omega) := by
  have hexponent : (BitVec.ofNat 11 biased).toNat = biased := Nat.mod_eq_of_lt (by omega)
  have hones : BitVec.ofNat 11 biased ≠ -1#11 := fun h => by
    rw [h] at hexponent
    exact hlt.ne' hexponent
  have hzero : BitVec.ofNat 11 biased ≠ 0#11 := fun h => by
    rw [h] at hexponent
    exact hpos.ne hexponent
  have hmantissa : (BitVec.ofNat 52 s).toNat = s - 2 ^ 52 := by
    rw [BitVec.toNat_ofNat]
    omega
  have happend : (1#1 ++ BitVec.ofNat 52 s).toNat = s := by
    rw [append_one_toNat, hmantissa]
    omega
  have hbias : ((Format.binary64.exponentBias : Nat) : Int) + (52 : Nat) = 1075 := rfl
  simp only [UnpackedFloat.unpack, unpackExponent_packComponents, unpackMantissa_packComponents,
    unpackSign_packComponents, Sign.ofBitVec_toBitVec, hones, hzero, if_false, happend, hexponent,
    hbias, ht]

theorem unpack_subnormal (sign : Sign) {s : Nat} (hpos : 0 < s) (hlt : s < 2 ^ 52) :
    UnpackedFloat.unpack Format.binary64
        (packComponents Format.binary64 sign 0#11 (BitVec.ofNat 52 s))
      = .finite sign s (-1074) hpos := by
  have hmantissa : (BitVec.ofNat 52 s).toNat = s := Nat.mod_eq_of_lt hlt
  have hsome : BitVec.ofNat 52 s ≠ 0#52 := fun h => by
    rw [h] at hmantissa
    exact hpos.ne hmantissa
  have hones : (0#11 : BitVec 11) ≠ -1#11 := by decide
  have hleast : ((0#11 : BitVec 11).toNat : Int)
      - ((Format.binary64.exponentBias : Nat) + (52 : Nat)) + 1 = -1074 := rfl
  simp only [UnpackedFloat.unpack, unpackExponent_packComponents, unpackMantissa_packComponents,
    unpackSign_packComponents, Sign.ofBitVec_toBitVec, hones, hsome, if_false, if_true, dif_neg,
    not_false_eq_true, hmantissa, hleast]

theorem unpack_pack {s : Nat} {t : Int} (h : IsDouble s t) (sign : Sign) :
    (Float.Model.pack (.finite sign s t h.pos)).unpack = .finite sign s t h.pos := by
  have hlt := h.lt
  have hfloor := h.floor
  have htop := h.top
  have hbiased : (t + ((Format.binary64.exponentBias : Nat) : Int) + (52 : Nat)).toNat
      = (t + 1075).toNat := by
    have hbias : Format.binary64.exponentBias = 1023 := rfl
    rw [hbias]
    omega
  have hfits : ¬2 ^ 11 ≤ (t + 1075).toNat + 1 := by omega
  change UnpackedFloat.unpack Format.binary64 (UnpackedFloat.pack Format.binary64 _) = _
  by_cases hs : 2 ^ 52 ≤ s
  · have hlog : s.log2 + 1 = Format.binary64.mantissaBits :=
      congrArg (· + 1) ((Nat.log2_eq_iff h.pos.ne').2 ⟨hs, hlt⟩)
    simp only [UnpackedFloat.pack, hbiased, if_neg hfits, if_pos hlog]
    exact unpack_normal sign (by omega) (by omega) hs hlt (by omega)
  · have hlog : s.log2 + 1 ≠ Format.binary64.mantissaBits := by
      have hsmall : s.log2 < 52 := (Nat.log2_lt h.pos.ne').2 (by omega)
      have hbits : Format.binary64.mantissaBits = 53 := rfl
      omega
    obtain rfl : t = -1074 := h.normal.resolve_left hs
    simp only [UnpackedFloat.pack, hbiased, if_neg hfits, if_neg hlog]
    exact unpack_subnormal sign h.pos (by omega)

end Scenograph
