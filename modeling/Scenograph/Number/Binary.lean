namespace Scenograph

inductive Binary where
  | nan
  | infinite (negative : Bool)
  | finite (negative : Bool) (significand : Nat) (exponent : Int)
  deriving DecidableEq, Repr

namespace Binary

def ofBits (bits : Nat) : Binary :=
  let negative := decide (bits / Nat.pow 2 63 % 2 = 1)
  let field : Nat := bits / Nat.pow 2 52 % Nat.pow 2 11
  let fraction := bits % Nat.pow 2 52
  if field = 2047 then
    if fraction = 0 then .infinite negative else .nan
  else if field = 0 then
    .finite negative fraction (-1074)
  else
    .finite negative (Nat.pow 2 52 + fraction) (field - 1075)

def ofFloat (x : Float) : Binary :=
  ofBits x.toBits.toNat

def whole? : Binary → Option (Bool × Nat)
  | .finite negative significand exponent =>
      if 0 ≤ exponent then some (negative, significand * Nat.pow 2 exponent.toNat)
      else if significand % Nat.pow 2 (-exponent).toNat = 0 then
        some (negative, significand / Nat.pow 2 (-exponent).toNat)
      else none
  | _ => none

end Binary

def roundQuotient (num den : Nat) : Nat :=
  let q := num / den
  let r := num % den
  if 2 * r < den then q
  else if den < 2 * r then q + 1
  else if q % 2 = 0 then q
  else q + 1

/-- The place of a bit pattern in the total order of doubles: negative patterns in reverse, then
the others, so that `-0` comes before `+0` and every pattern has a place of its own. -/
def totalRank (bits : UInt64) : Int :=
  if bits.toNat < Nat.pow 2 63 then bits.toNat else Int.pow 2 63 - 1 - bits.toNat

class Bits (α : Type) where
  bits : α → UInt64

instance : Bits Float := ⟨Float.toBits⟩

def totalLe {α : Type} [Bits α] (a b : α) : Bool :=
  decide (totalRank (Bits.bits a) ≤ totalRank (Bits.bits b))

end Scenograph
