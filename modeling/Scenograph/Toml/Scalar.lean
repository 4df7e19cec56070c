import Scenograph.Json.Reader
import Scenograph.Toml.Basic

namespace Scenograph.Toml

def underscoresFit (isDigit : Char → Bool) (after : Bool) : List Char → Bool
  | [] => true
  | '_' :: c :: rest => after && isDigit c && underscoresFit isDigit true rest
  | ['_'] => false
  | c :: rest => underscoresFit isDigit (isDigit c) rest

def wellSpaced (isDigit : Char → Bool) : List Char → Bool
  | [] => true
  | c :: rest => c != '_' && underscoresFit isDigit true rest

def isHexDigit (c : Char) : Bool :=
  (Json.hexDigit? c).isSome

def withoutUnderscores (cs : List Char) : List Char :=
  cs.filter (· != '_')

def digitsValue (base : Nat) (ds : List Char) : Nat :=
  ds.foldl (fun n c => n * base + (Json.hexDigit? c).getD 0) 0

def integerValue? (isDigit : Char → Bool) (base : Nat) (negative : Bool) (cs : List Char) :
    Option Int :=
  let ds := withoutUnderscores cs
  let n : Int := if negative then -digitsValue base ds else digitsValue base ds
  if !ds.isEmpty ∧ ds.all isDigit ∧ -Int.pow 2 127 ≤ n ∧ n < Int.pow 2 128 then some n else none

def splitSign : List Char → Option Bool × List Char
  | '-' :: rest => (some true, rest)
  | '+' :: rest => (some false, rest)
  | cs => (none, cs)

def takeDigits (cs : List Char) : Option (List Char × List Char) :=
  let (ds, rest) := cs.span fun c => c.isDigit || c == '_'
  if ds.any Char.isDigit then some (ds, rest) else none

def hasLeadingZero : List Char → Bool
  | '0' :: rest => rest.any Char.isDigit
  | _ => false

def fraction? : List Char → Option (List Char × List Char)
  | '.' :: rest => takeDigits rest
  | cs => some ([], cs)

def exponent? : List Char → Option (Int × List Char)
  | 'e' :: rest | 'E' :: rest => do
      let (sign, rest) := splitSign rest
      let (ds, rest) ← takeDigits rest
      let n : Int := digitsValue 10 (withoutUnderscores ds)
      return (if sign = some true then -n else n, rest)
  | cs => some (0, cs)

def float? (negative : Bool) (cs : List Char) : Option Toml := do
  let (whole, rest) ← takeDigits cs
  let (places, rest) ← fraction? rest
  let (power, rest) ← exponent? rest
  if hasLeadingZero whole || !rest.isEmpty then none
  else
    let places := withoutUnderscores places
    let d : Decimal :=
      ⟨digitsValue 10 (withoutUnderscores whole ++ places), power - places.length⟩
    let x := d.toFloat negative
    return .float (if x.isFinite then some x else none)

def based? (isDigit : Char → Bool) (base : Nat) (cs : List Char) : Option Toml :=
  if cs.all (fun c => isDigit c || c == '_') && wellSpaced isDigit cs then
    some (.integer (integerValue? isDigit base false cs))
  else none

def decimal? (sign : List Char) (negative : Bool) (cs : List Char) : Option Toml :=
  let rest := cs.dropWhile Char.isDigit
  if rest.any fun c => c == '.' || c == 'e' || c == 'E' then
    if wellSpaced Char.isDigit (sign ++ cs) then float? negative cs else none
  else if rest.isEmpty || rest.head? == some '_' then
    if (cs.head? == some '0' && cs != ['0']) || !wellSpaced isHexDigit (sign ++ cs) then none
    else some (.integer (integerValue? Char.isDigit 10 negative cs))
  else none

def number? (cs : List Char) : Option Toml :=
  let (sign, digits) := splitSign cs
  let negative := sign = some true
  match sign, digits with
  | _, [] => none
  | _, ['i', 'n', 'f'] => some (.float (some (if negative then -1.0 / 0.0 else 1.0 / 0.0)))
  | _, ['n', 'a', 'n'] => some (.float (some (0.0 / 0.0)))
  | none, '0' :: 'x' :: ds => based? isHexDigit 16 ds
  | none, '0' :: 'o' :: ds => based? (fun c => decide ('0' ≤ c) && decide (c ≤ '7')) 8 ds
  | none, '0' :: 'b' :: ds => based? (fun c => c == '0' || c == '1') 2 ds
  | _, ds => decimal? (cs.take (cs.length - ds.length)) negative ds

def fixedDigits (count low high : Nat) (cs : List Char) : Option (Nat × List Char) :=
  let ds := cs.take count
  let n := digitsValue 10 ds
  if ds.length = count ∧ ds.all Char.isDigit ∧ low ≤ n ∧ n ≤ high then some (n, cs.drop count)
  else none

def expect (c : Char) : List Char → Option (List Char)
  | d :: rest => if d = c then some rest else none
  | [] => none

def daysIn (year month : Nat) : Nat :=
  if month = 2 then
    if (year % 4 = 0 ∧ year % 100 ≠ 0) ∨ year % 400 = 0 then 29 else 28
  else if month = 4 ∨ month = 6 ∨ month = 9 ∨ month = 11 then 30
  else 31

def date? (cs : List Char) : Option (List Char) := do
  let (year, rest) ← fixedDigits 4 0 9999 cs
  let (month, rest) ← fixedDigits 2 1 12 (← expect '-' rest)
  let (_, rest) ← fixedDigits 2 1 (daysIn year month) (← expect '-' rest)
  return rest

def seconds? (cs : List Char) : Option (List Char) :=
  match cs with
  | ':' :: rest => do
      let (_, rest) ← fixedDigits 2 0 60 rest
      match rest with
      | '.' :: rest =>
          match rest.span Char.isDigit with
          | ([], _) => none
          | (_, rest) => some rest
      | rest => some rest
  | cs => some cs

def time? (cs : List Char) : Option (List Char) := do
  let (_, rest) ← fixedDigits 2 0 23 cs
  let (_, rest) ← fixedDigits 2 0 59 (← expect ':' rest)
  seconds? rest

def offset? : List Char → Option (List Char)
  | [] => some []
  | 'Z' :: rest | 'z' :: rest => some rest
  | c :: rest =>
      if c = '+' ∨ c = '-' then do
        let (_, rest) ← fixedDigits 2 0 23 rest
        let (_, rest) ← fixedDigits 2 0 59 (← expect ':' rest)
        return rest
      else none

def isDateTime (cs : List Char) : Bool :=
  match date? cs with
  | some [] => true
  | some (c :: rest) =>
      (c == 'T' || c == 't' || c == ' ') && ((time? rest).bind offset?) == some []
  | none => time? cs == some []

def isScalarChar (c : Char) : Bool :=
  !" \t\r\n#=,[]\x7b\x7d".toList.contains c

def readScalarText (cs : List Char) : List Char × List Char :=
  let (text, rest) := cs.span isScalarChar
  match rest with
  | ' ' :: d :: e :: rest' =>
      if (date? text) == some [] && d.isDigit && e.isDigit then
        let (more, rest'') := rest'.span isScalarChar
        (text ++ ' ' :: d :: e :: more, rest'')
      else (text, rest)
  | _ => (text, rest)

def scalarValue? (cs : List Char) : Option Toml :=
  match cs with
  | ['t', 'r', 'u', 'e'] => some (.boolean true)
  | ['f', 'a', 'l', 's', 'e'] => some (.boolean false)
  | cs => if isDateTime cs then some (.dateTime (String.ofList cs)) else number? cs

end Scenograph.Toml
