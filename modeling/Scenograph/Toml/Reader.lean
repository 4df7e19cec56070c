import Scenograph.Toml.Scalar
import Scenograph.Toml.Text

namespace Scenograph.Toml

def expectAmongFiller (c : Char) (cs : List Char) : Option (List Char) := do
  let rest ← expect c (← skipFiller (cs.length + 1) cs)
  skipFiller (rest.length + 1) rest

mutual

def readValue : Nat → Nat → List Char → Option (Toml × List Char)
  | 0, _, _ => none
  | fuel + 1, depth, cs =>
      match cs, depth with
      | '"' :: _, _ => (readString cs).map fun (s, rest) => (.string s, rest)
      | '\'' :: _, _ => (readString cs).map fun (s, rest) => (.string s, rest)
      | '[' :: _, 0 | '\x7b' :: _, 0 => none
      | '[' :: rest, depth + 1 =>
          (readItems fuel depth rest).map fun (items, rest) => (.array items, rest)
      | '\x7b' :: rest, depth + 1 =>
          (readMembers fuel depth [] rest).map fun (entries, rest) =>
            (.table .inline entries, rest)
      | cs, _ =>
          let (text, rest) := readScalarText cs
          (scalarValue? text).map fun v => (v, rest)

def readItems : Nat → Nat → List Char → Option (List Toml × List Char)
  | 0, _, _ => none
  | fuel + 1, depth, cs => do
      match ← skipFiller (cs.length + 1) cs with
      | ']' :: rest => return ([], rest)
      | cs =>
          let (v, rest) ← readValue fuel depth cs
          match ← skipFiller (rest.length + 1) rest with
          | ',' :: rest =>
              let (vs, rest) ← readItems fuel depth rest
              return (v :: vs, rest)
          | ']' :: rest => return ([v], rest)
          | _ => none

def readMembers : Nat → Nat → Entries → List Char → Option (Entries × List Char)
  | 0, _, _, _ => none
  | fuel + 1, depth, entries, cs => do
      match ← skipFiller (cs.length + 1) cs with
      | '\x7d' :: rest => return (entries, rest)
      | cs =>
          let ((path, key), rest) ← readKey cs
          let (v, rest) ← readValue fuel depth (← expectAmongFiller '=' rest)
          let (_, entries) ← addDotted path key v .header entries
          match ← skipFiller (rest.length + 1) rest with
          | ',' :: rest => readMembers fuel depth entries rest
          | '\x7d' :: rest => return (entries, rest)
          | _ => none

end

def readHeader (cs : List Char) : Option ((List String × String × Bool) × List Char) :=
  match cs with
  | '[' :: rest => do
      let ((path, key), rest) ← readKey rest
      match rest with
      | ']' :: ']' :: rest => return ((path, key, true), rest)
      | _ => none
  | rest => do
      let ((path, key), rest) ← readKey rest
      return ((path, key, false), ← expect ']' rest)

def readLines : Nat → List String → Entries → List Char → Option Entries
  | 0, _, _, _ => none
  | fuel + 1, header, root, cs =>
      match skipBlanks cs with
      | [] => some root
      | '[' :: rest => do
          let ((path, key, isArray), rest) ← readHeader rest
          let start := if isArray then startArrayTable key else startTable key
          let (_, root) ← changeAt false start path .header root
          readLines fuel (path ++ [key]) root (← endLine rest)
      | cs =>
          match cs with
          | '#' :: _ | '\n' :: _ | '\r' :: _ => do readLines fuel header root (← endLine cs)
          | _ => do
              let ((path, key), rest) ← readKey cs
              let (v, rest) ←
                readValue (cs.length + 1) depthLimit (skipBlanks (← expect '=' rest))
              let (_, root) ← changeAt false (addDotted path key v) header .header root
              readLines fuel header root (← endLine rest)

def read (text : String) : Option Entries :=
  let cs := match text.toList with
    | c :: rest => if c.toNat = 0xFEFF then rest else c :: rest
    | [] => []
  readLines (cs.length + 1) [] [] cs

end Scenograph.Toml
