import Scenograph.Number.Decimal

namespace Scenograph

/-- A JSON value as far as its text can be read. A text has no characters to offer when one of its
escapes names none; `cut` stands where the text stops being JSON, and nothing follows it. -/
inductive Json where
  | null
  | bool (value : Bool)
  | int (value : Int)
  | float (value : Float)
  | str (text : Option String)
  | arr (items : List Json)
  | obj (members : List (Option String × Json))
  | cut
  deriving Inhabited

namespace Json

def text (s : String) : Json :=
  .str (some s)

def nat (n : Nat) : Json :=
  .int n

def record (members : List (String × Json)) : Json :=
  .obj (members.map fun m => (some m.1, m.2))

def variant (name : String) (content : Json) : Json :=
  .obj [(some name, content)]

def option {α : Type} (encode : α → Json) : Option α → Json
  | none => .null
  | some a => encode a

def list {α : Type} (encode : α → Json) (items : List α) : Json :=
  .arr (items.map encode)

def escapeChar (c : Char) : List Char :=
  if c = '"' then ['\\', '"']
  else if c = '\\' then ['\\', '\\']
  else if c.toNat = 0x8 then ['\\', 'b']
  else if c.toNat = 0xC then ['\\', 'f']
  else if c = '\n' then ['\\', 'n']
  else if c = '\r' then ['\\', 'r']
  else if c = '\t' then ['\\', 't']
  else if c.toNat < 0x20 then
    ['\\', 'u', '0', '0', Nat.digitChar (c.toNat / 16), Nat.digitChar (c.toNat % 16)]
  else [c]

def quoted (s : Option String) : List Char :=
  '"' :: ((s.getD "").toList.flatMap escapeChar ++ ['"'])

def floatText (x : Float) : List Char :=
  ((Binary.ofFloat x).dataText?.getD "null").toList

def intText (n : Int) : List Char :=
  withSign (decide (n < 0)) (Nat.toDigits 10 n.natAbs)

mutual

def compactChars : Json → List Char
  | .null => ['n', 'u', 'l', 'l']
  | .bool true => ['t', 'r', 'u', 'e']
  | .bool false => ['f', 'a', 'l', 's', 'e']
  | .int n => intText n
  | .float x => floatText x
  | .str s => quoted s
  | .arr items => '[' :: (compactItems items ++ [']'])
  | .obj members => '\x7b' :: (compactMembers members ++ ['\x7d'])
  | .cut => []

def compactItems : List Json → List Char
  | [] => []
  | [v] => compactChars v
  | v :: rest => compactChars v ++ ',' :: compactItems rest

def compactMembers : List (Option String × Json) → List Char
  | [] => []
  | [(k, v)] => quoted k ++ ':' :: compactChars v
  | (k, v) :: rest => quoted k ++ ':' :: (compactChars v ++ ',' :: compactMembers rest)

end

def newline (depth : Nat) : List Char :=
  '\n' :: List.replicate (2 * depth) ' '

mutual

def prettyChars (depth : Nat) : Json → List Char
  | .arr [] => ['[', ']']
  | .arr (v :: rest) => '[' :: (prettyItems (depth + 1) (v :: rest) ++ newline depth ++ [']'])
  | .obj [] => ['\x7b', '\x7d']
  | .obj (m :: rest) =>
      '\x7b' :: (prettyMembers (depth + 1) (m :: rest) ++ newline depth ++ ['\x7d'])
  | .null => ['n', 'u', 'l', 'l']
  | .bool true => ['t', 'r', 'u', 'e']
  | .bool false => ['f', 'a', 'l', 's', 'e']
  | .int n => intText n
  | .float x => floatText x
  | .str s => quoted s
  | .cut => []

def prettyItems (depth : Nat) : List Json → List Char
  | [] => []
  | [v] => newline depth ++ prettyChars depth v
  | v :: rest => newline depth ++ prettyChars depth v ++ ',' :: prettyItems depth rest

def prettyMembers (depth : Nat) : List (Option String × Json) → List Char
  | [] => []
  | [(k, v)] => newline depth ++ quoted k ++ ':' :: ' ' :: prettyChars depth v
  | (k, v) :: rest =>
      newline depth ++ quoted k ++ ':' :: ' ' ::
        (prettyChars depth v ++ ',' :: prettyMembers depth rest)

end

def compact (v : Json) : String :=
  String.ofList v.compactChars

def pretty (v : Json) : String :=
  String.ofList (v.prettyChars 0)

end Json

end Scenograph
