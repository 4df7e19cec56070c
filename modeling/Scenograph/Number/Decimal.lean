import Scenograph.Number.Binary

namespace Scenograph

structure Decimal where
  coefficient : Nat
  exponent : Int
  deriving DecidableEq, Repr

inductive Tie where
  | up
  | even
  deriving DecidableEq, Repr

/-- The positive reals that read back as `significand * 2 ^ exponent`, in quarters of the unit
`2 ^ exponent`: from `low` to `high`, the ends belonging to it when the significand is even. Below
the least significand of a binade the neighbours are twice as close. -/
structure Neighbourhood where
  significand : Nat
  exponent : Int
  low : Nat
  high : Nat
  deriving DecidableEq, Repr

namespace Neighbourhood

def of (significand : Nat) (exponent : Int) (least : Nat) (floor : Int) : Neighbourhood :=
  { significand, exponent
    low := if significand = least ∧ floor < exponent then 4 * significand - 1
      else 4 * significand - 2
    high := 4 * significand + 2 }

def scaled (n : Neighbourhood) (k : Int) (quarters : Nat) : Nat :=
  quarters * Nat.pow 2 (n.exponent - 2).toNat * Nat.pow 10 (-k).toNat

def divisor (n : Neighbourhood) (k : Int) : Nat :=
  Nat.pow 2 (2 - n.exponent).toNat * Nat.pow 10 k.toNat

def covers (n : Neighbourhood) (k : Int) (a : Nat) : Bool :=
  let point := a * n.divisor k
  let low := n.scaled k n.low
  let high := n.scaled k n.high
  if n.significand % 2 = 0 then decide (low ≤ point) && decide (point ≤ high)
  else decide (low < point) && decide (point < high)

def onGrid (n : Neighbourhood) (tie : Tie) (k : Int) : Option Nat :=
  let num := n.scaled k (4 * n.significand)
  let den := n.divisor k
  let below := num / den
  let rest := num % den
  match n.covers k below, n.covers k (below + 1) with
  | true, true =>
      if 2 * rest < den then some below
      else if den < 2 * rest then some (below + 1)
      else match tie with
        | .up => some (below + 1)
        | .even => some (if below % 2 = 0 then below else below + 1)
  | true, false => some below
  | false, true => some (below + 1)
  | false, false => none

def search (n : Neighbourhood) (tie : Tie) : Nat → Int → Decimal
  | 0, k => ⟨n.scaled k (4 * n.significand) / n.divisor k, k⟩
  | fuel + 1, k =>
      match n.onGrid tie k with
      | some a => ⟨a, k⟩
      | none => search n tie fuel (k - 1)

/-- The shortest decimal that reads back as the number. The first grid tried lies above the number,
the last one well below the distance to its neighbours. -/
def shortest (n : Neighbourhood) (tie : Tie) : Decimal :=
  if n.significand = 0 then ⟨0, 0⟩
  else n.search tie 24 ((n.significand.log2 + n.exponent) * 30103 / 100000 + 2)

end Neighbourhood

def Decimal.ofDouble (tie : Tie) (significand : Nat) (exponent : Int) : Decimal :=
  (Neighbourhood.of significand exponent (Nat.pow 2 52) (-1074)).shortest tie

def Decimal.ofSingle (tie : Tie) (significand : Nat) (exponent : Int) : Decimal :=
  (Neighbourhood.of significand exponent (Nat.pow 2 23) (-149)).shortest tie

def toSingle (significand : Nat) (exponent : Int) : Option (Nat × Int) :=
  if significand = 0 then some (0, -149)
  else
    let e := max (-149) (exponent + significand.log2 - 23)
    let m :=
      if e ≤ exponent then significand * Nat.pow 2 (exponent - e).toNat
      else roundQuotient significand (Nat.pow 2 (e - exponent).toNat)
    let (m, e) := if m = Nat.pow 2 24 then (Nat.pow 2 23, e + 1) else (m, e)
    if 104 < e then none else some (m, e)

namespace Decimal

def digits (d : Decimal) : List Char :=
  Nat.toDigits 10 d.coefficient

def leading (d : Decimal) : Int :=
  d.exponent + d.digits.length - 1

def zeros (n : Nat) : List Char :=
  List.replicate n '0'

def positional (showFraction : Bool) (d : Decimal) : List Char :=
  let ds := d.digits
  if 0 ≤ d.exponent then
    let whole := if d.coefficient = 0 then ds else ds ++ zeros d.exponent.toNat
    if showFraction then whole ++ ['.', '0'] else whole
  else
    let places := (-d.exponent).toNat
    if places < ds.length then
      ds.take (ds.length - places) ++ '.' :: ds.drop (ds.length - places)
    else
      '0' :: '.' :: (zeros (places - ds.length) ++ ds)

def scientific (d : Decimal) : List Char :=
  let mantissa := match d.digits with
    | [] => []
    | [c] => [c]
    | c :: cs => c :: '.' :: cs
  let e := d.leading
  let sign := if e < 0 then '-' else '+'
  mantissa ++ 'e' :: sign :: Nat.toDigits 10 e.natAbs

end Decimal

def withSign (negative : Bool) (text : List Char) : List Char :=
  if negative then '-' :: text else text

namespace Binary

def dataText? : Binary → Option String
  | .finite negative significand exponent =>
      let d := Decimal.ofDouble .even significand exponent
      let text :=
        if -5 ≤ d.leading ∧ d.leading ≤ 15 then d.positional true else d.scientific
      some (String.ofList (withSign negative text))
  | _ => none

def plainText : Binary → String
  | .nan => "NaN"
  | .infinite negative => String.ofList (withSign negative ['i', 'n', 'f'])
  | .finite negative significand exponent =>
      String.ofList
        (withSign negative ((Decimal.ofDouble .up significand exponent).positional false))

def plainSingleText : Binary → String
  | .nan => "NaN"
  | .infinite negative => String.ofList (withSign negative ['i', 'n', 'f'])
  | .finite negative significand exponent =>
      match toSingle significand exponent with
      | none => String.ofList (withSign negative ['i', 'n', 'f'])
      | some (m, e) =>
          String.ofList (withSign negative ((Decimal.ofSingle .up m e).positional false))

end Binary

def Decimal.toFloat (negative : Bool) (d : Decimal) : Float :=
  let magnitude : Float :=
    if d.coefficient = 0 then 0
    else if 400 < d.leading then 1 / 0
    else if d.leading < -400 then 0
    else Float.ofScientific d.coefficient (decide (d.exponent < 0)) d.exponent.natAbs
  if negative then -magnitude else magnitude

end Scenograph
