import Scenograph.Json.Basic

/-!
Reading JSON text. The reader keeps everything in front of the first fault, so that whoever decodes
the value meets faults in the order in which the text holds them.
-/

namespace Scenograph.Json

def isSpace (c : Char) : Bool :=
  c == ' ' || c == '\n' || c == '\t' || c == '\r'

def skipSpace (cs : List Char) : List Char :=
  cs.dropWhile isSpace

inductive Piece where
  | char (c : Char)
  | unit (code : Nat)
  deriving DecidableEq, Repr

def hexDigit? (c : Char) : Option Nat :=
  if '0' ≤ c ∧ c ≤ '9' then some (c.toNat - '0'.toNat)
  else if 'a' ≤ c ∧ c ≤ 'f' then some (c.toNat - 'a'.toNat + 10)
  else if 'A' ≤ c ∧ c ≤ 'F' then some (c.toNat - 'A'.toNat + 10)
  else none

def hexUnit? (a b c d : Char) : Option Nat := do
  let a ← hexDigit? a
  let b ← hexDigit? b
  let c ← hexDigit? c
  let d ← hexDigit? d
  return ((a * 16 + b) * 16 + c) * 16 + d

def simpleEscape? : Char → Option Char
  | '"' => some '"'
  | '\\' => some '\\'
  | '/' => some '/'
  | 'b' => some (Char.ofNat 0x8)
  | 'f' => some (Char.ofNat 0xC)
  | 'n' => some '\n'
  | 'r' => some '\r'
  | 't' => some '\t'
  | _ => none

def readPieces (acc : List Piece) : List Char → Option (List Piece × List Char)
  | [] => none
  | '"' :: rest => some (acc.reverse, rest)
  | '\\' :: 'u' :: a :: b :: c :: d :: rest =>
      match hexUnit? a b c d with
      | some code => readPieces (.unit code :: acc) rest
      | none => none
  | '\\' :: e :: rest =>
      match simpleEscape? e with
      | some c => readPieces (.char c :: acc) rest
      | none => none
  | c :: rest => if c.toNat < 0x20 then none else readPieces (.char c :: acc) rest

def isHighUnit (code : Nat) : Bool :=
  decide (0xD800 ≤ code) && decide (code ≤ 0xDBFF)

def isLowUnit (code : Nat) : Bool :=
  decide (0xDC00 ≤ code) && decide (code ≤ 0xDFFF)

def joinPieces (acc : List Char) : List Piece → Option String
  | [] => some (String.ofList acc.reverse)
  | .char c :: rest => joinPieces (c :: acc) rest
  | .unit high :: .unit low :: rest =>
      if isHighUnit high then
        if isLowUnit low then
          joinPieces (Char.ofNat (0x10000 + (high - 0xD800) * 0x400 + (low - 0xDC00)) :: acc) rest
        else none
      else if isLowUnit high then none
      else joinPieces (Char.ofNat high :: acc) (.unit low :: rest)
  | .unit code :: rest =>
      if isHighUnit code || isLowUnit code then none
      else joinPieces (Char.ofNat code :: acc) rest

def readString (cs : List Char) : Option (Option String × List Char) :=
  match readPieces [] cs with
  | some (pieces, rest) => some (joinPieces [] pieces, rest)
  | none => none

def digitsValue (ds : List Char) : Nat :=
  ds.foldl (fun n c => n * 10 + (c.toNat - '0'.toNat)) 0

def readDigits (cs : List Char) : Option (List Char × List Char) :=
  match cs.span Char.isDigit with
  | ([], _) => none
  | (ds, rest) => some (ds, rest)

def readWhole : List Char → Option (List Char × List Char)
  | '0' :: rest =>
      match rest with
      | c :: _ => if c.isDigit then none else some (['0'], rest)
      | [] => some (['0'], rest)
  | cs => readDigits cs

def readFraction : List Char → Option (Option (List Char) × List Char)
  | '.' :: rest =>
      match readDigits rest with
      | some (ds, rest) => some (some ds, rest)
      | none => none
  | cs => some (none, cs)

def readSigned (cs : List Char) : Option (Int × List Char) :=
  match cs with
  | '-' :: rest => (readDigits rest).map fun (ds, rest) => (-(digitsValue ds : Int), rest)
  | '+' :: rest => (readDigits rest).map fun (ds, rest) => ((digitsValue ds : Int), rest)
  | rest => (readDigits rest).map fun (ds, rest) => ((digitsValue ds : Int), rest)

def readExponent : List Char → Option (Option Int × List Char)
  | 'e' :: rest => (readSigned rest).map fun (e, rest) => (some e, rest)
  | 'E' :: rest => (readSigned rest).map fun (e, rest) => (some e, rest)
  | cs => some (none, cs)

def numberValue (negative : Bool) (whole : List Char) (fraction : Option (List Char))
    (exponent : Option Int) : Json :=
  match fraction, exponent with
  | none, none =>
      let n := digitsValue whole
      if negative then (if n = 0 then .float (-0.0) else .int (-n)) else .int n
  | _, _ =>
      let places := fraction.getD []
      let d : Decimal := ⟨digitsValue (whole ++ places), exponent.getD 0 - places.length⟩
      .float (d.toFloat negative)

def readUnsigned (negative : Bool) (cs : List Char) : Option (Json × List Char) := do
  let (whole, rest) ← readWhole cs
  let (fraction, rest) ← readFraction rest
  let (exponent, rest) ← readExponent rest
  return (numberValue negative whole fraction exponent, rest)

def readNumber : List Char → Option (Json × List Char)
  | '-' :: rest => readUnsigned true rest
  | cs => readUnsigned false cs

def orCut : Option (Json × List Char) → Json × Option (List Char)
  | some (v, rest) => (v, some rest)
  | none => (.cut, none)

mutual

def readValue : Nat → List Char → Json × Option (List Char)
  | 0, _ => (.cut, none)
  | fuel + 1, cs =>
      match skipSpace cs with
      | 'n' :: 'u' :: 'l' :: 'l' :: rest => (.null, some rest)
      | 't' :: 'r' :: 'u' :: 'e' :: rest => (.bool true, some rest)
      | 'f' :: 'a' :: 'l' :: 's' :: 'e' :: rest => (.bool false, some rest)
      | '"' :: rest => orCut ((readString rest).map fun (s, rest) => (.str s, rest))
      | '[' :: rest =>
          match skipSpace rest with
          | ']' :: rest => (.arr [], some rest)
          | rest =>
              let (items, rest) := readItems fuel rest
              (.arr items, rest)
      | '\x7b' :: rest =>
          match skipSpace rest with
          | '\x7d' :: rest => (.obj [], some rest)
          | rest =>
              let (members, rest) := readMembers fuel rest
              (.obj members, rest)
      | rest => orCut (readNumber rest)

def readItems : Nat → List Char → List Json × Option (List Char)
  | 0, _ => ([.cut], none)
  | fuel + 1, cs =>
      match readValue fuel cs with
      | (v, none) => ([v], none)
      | (v, some rest) =>
          match skipSpace rest with
          | ',' :: rest =>
              let (vs, rest) := readItems fuel rest
              (v :: vs, rest)
          | ']' :: rest => ([v], some rest)
          | _ => ([v, .cut], none)

def readMembers : Nat → List Char → List (Option String × Json) × Option (List Char)
  | 0, _ => ([(none, .cut)], none)
  | fuel + 1, cs =>
      match skipSpace cs with
      | '"' :: rest =>
          match readString rest with
          | none => ([(none, .cut)], none)
          | some (key, rest) =>
              match skipSpace rest with
              | ':' :: rest =>
                  match readValue fuel rest with
                  | (v, none) => ([(key, v)], none)
                  | (v, some rest) =>
                      match skipSpace rest with
                      | ',' :: rest =>
                          let (ms, rest) := readMembers fuel rest
                          ((key, v) :: ms, rest)
                      | '\x7d' :: rest => ([(key, v)], some rest)
                      | _ => ([(key, v), (none, .cut)], none)
              | _ => ([(key, .cut)], none)
      | _ => ([(none, .cut)], none)

end

structure Reading where
  value : Json
  finished : Bool

def read (text : String) : Reading :=
  let cs := text.toList
  let (value, rest) := readValue (2 * cs.length + 2) cs
  { value, finished := (rest.map fun cs => (skipSpace cs).isEmpty).getD false }

structure Format where
  print : Json → String
  parse : String → Reading

def Format.standard : Format where
  print := pretty
  parse := read

end Scenograph.Json
