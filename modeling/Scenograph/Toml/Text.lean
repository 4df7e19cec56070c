import Scenograph.Json.Reader

namespace Scenograph.Toml

def isBlankChar (c : Char) : Bool :=
  c == ' ' || c == '\t'

def skipBlanks (cs : List Char) : List Char :=
  cs.dropWhile isBlankChar

def isControl (c : Char) : Bool :=
  (decide (c.toNat < 0x20) && c != '\t') || c.toNat == 0x7F

def newline? : List Char → Option (List Char)
  | '\n' :: rest => some rest
  | '\r' :: '\n' :: rest => some rest
  | _ => none

def skipComment (cs : List Char) : Option (List Char) :=
  match cs with
  | '#' :: rest =>
      let rest := rest.dropWhile fun c => !isControl c
      match rest with
      | [] => some []
      | _ => if (newline? rest).isSome then some rest else none
  | cs => some cs

def endLine (cs : List Char) : Option (List Char) := do
  let rest ← skipComment (skipBlanks cs)
  match rest with
  | [] => some []
  | rest => newline? rest

def skipFiller : Nat → List Char → Option (List Char)
  | 0, cs => some cs
  | fuel + 1, cs =>
      let cs := skipBlanks cs
      match cs with
      | '#' :: _ => do skipFiller fuel (← skipComment cs)
      | _ =>
          match newline? cs with
          | some rest => skipFiller fuel rest
          | none => some cs

def skipSpace : List Char → List Char
  | ' ' :: rest | '\t' :: rest | '\n' :: rest => skipSpace rest
  | '\r' :: '\n' :: rest => skipSpace rest
  | cs => cs

def scalar? (code : Nat) : Option Char :=
  if code < 0xD800 ∨ (0xDFFF < code ∧ code < 0x110000) then some (Char.ofNat code) else none

def hexValue? (ds : List Char) : Option Nat :=
  ds.foldlM (fun n c => (Json.hexDigit? c).map fun d => n * 16 + d) 0

def simpleEscape? : Char → Option Char
  | 'b' => some (Char.ofNat 0x8)
  | 't' => some '\t'
  | 'n' => some '\n'
  | 'f' => some (Char.ofNat 0xC)
  | 'r' => some '\r'
  | 'e' => some (Char.ofNat 0x1B)
  | '"' => some '"'
  | '\\' => some '\\'
  | _ => none

def readEscape : List Char → Option (Char × List Char)
  | 'x' :: a :: b :: rest => do return (← scalar? (← hexValue? [a, b]), rest)
  | 'u' :: a :: b :: c :: d :: rest => do return (← scalar? (← hexValue? [a, b, c, d]), rest)
  | 'U' :: a :: b :: c :: d :: e :: f :: g :: h :: rest => do
      return (← scalar? (← hexValue? [a, b, c, d, e, f, g, h]), rest)
  | c :: rest => do return (← simpleEscape? c, rest)
  | [] => none

def readBasic : Nat → List Char → List Char → Option (String × List Char)
  | 0, _, _ => none
  | fuel + 1, acc, cs =>
      match cs with
      | [] => none
      | '"' :: rest => some (String.ofList acc.reverse, rest)
      | '\\' :: rest => do
          let (c, rest) ← readEscape rest
          readBasic fuel (c :: acc) rest
      | c :: rest => if isControl c then none else readBasic fuel (c :: acc) rest

def readLiteral (cs : List Char) : Option (String × List Char) :=
  match cs.span fun c => c != '\'' && !isControl c with
  | (text, '\'' :: rest) => some (String.ofList text, rest)
  | _ => none

def skipFirstNewline (cs : List Char) : List Char :=
  (newline? cs).getD cs

/-- A run of quotes in a string of several lines. Three close the string, and up to two more in
front of them belong to it. -/
def closing? (quotes : Nat) : Option (Option Nat) :=
  if quotes < 3 then some none else if quotes ≤ 5 then some (some (quotes - 3)) else none

def readBasicLines : Nat → List Char → List Char → Option (String × List Char)
  | 0, _, _ => none
  | fuel + 1, acc, cs =>
      match cs with
      | [] => none
      | '"' :: _ =>
          let (quotes, rest) := cs.span (· == '"')
          match closing? quotes.length with
          | none => none
          | some none => readBasicLines fuel (quotes ++ acc) rest
          | some (some extra) =>
              some (String.ofList (List.replicate extra '"' ++ acc).reverse, rest)
      | '\\' :: rest =>
          match newline? (skipBlanks rest) with
          | some rest => readBasicLines fuel acc (skipSpace rest)
          | none => do
              let (c, rest) ← readEscape rest
              readBasicLines fuel (c :: acc) rest
      | '\n' :: rest => readBasicLines fuel ('\n' :: acc) rest
      | '\r' :: '\n' :: rest => readBasicLines fuel ('\n' :: '\r' :: acc) rest
      | c :: rest => if isControl c then none else readBasicLines fuel (c :: acc) rest

def readLiteralLines : Nat → List Char → List Char → Option (String × List Char)
  | 0, _, _ => none
  | fuel + 1, acc, cs =>
      match cs with
      | [] => none
      | '\'' :: _ =>
          let (quotes, rest) := cs.span (· == '\'')
          match closing? quotes.length with
          | none => none
          | some none => readLiteralLines fuel (quotes ++ acc) rest
          | some (some extra) =>
              some (String.ofList (List.replicate extra '\'' ++ acc).reverse, rest)
      | '\n' :: rest => readLiteralLines fuel ('\n' :: acc) rest
      | '\r' :: '\n' :: rest => readLiteralLines fuel ('\n' :: '\r' :: acc) rest
      | c :: rest => if isControl c then none else readLiteralLines fuel (c :: acc) rest

def readString (cs : List Char) : Option (String × List Char) :=
  match cs with
  | '"' :: '"' :: '"' :: rest => readBasicLines (rest.length + 1) [] (skipFirstNewline rest)
  | '"' :: rest => readBasic (rest.length + 1) [] rest
  | '\'' :: '\'' :: '\'' :: rest => readLiteralLines (rest.length + 1) [] (skipFirstNewline rest)
  | '\'' :: rest => readLiteral rest
  | _ => none

def isBareChar (c : Char) : Bool :=
  c.isAlphanum || c == '_' || c == '-'

def readKeyPart (cs : List Char) : Option (String × List Char) :=
  match cs with
  | '"' :: rest => readBasic (rest.length + 1) [] rest
  | '\'' :: rest => readLiteral rest
  | cs =>
      match cs.span isBareChar with
      | ([], _) => none
      | (name, rest) => some (String.ofList name, rest)

def readKeyParts : Nat → List Char → Option ((List String × String) × List Char)
  | 0, _ => none
  | limit + 1, cs => do
      let (part, rest) ← readKeyPart (skipBlanks cs)
      match skipBlanks rest with
      | '.' :: rest =>
          let ((path, key), rest) ← readKeyParts limit rest
          return ((part :: path, key), rest)
      | rest => return (([], part), rest)

def depthLimit : Nat := 80

def readKey (cs : List Char) : Option ((List String × String) × List Char) :=
  readKeyParts depthLimit cs

end Scenograph.Toml
