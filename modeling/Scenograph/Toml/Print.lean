import Scenograph.Toml.Text

namespace Scenograph.Toml

inductive StringForm where
  | basic
  | literal
  | basicLines
  | literalLines
  deriving DecidableEq, Repr

def longestRun (c : Char) (current longest : Nat) : List Char → Nat
  | [] => max current longest
  | d :: rest =>
      if d = c then longestRun c (current + 1) longest rest
      else longestRun c 0 (max current longest) rest

def stringForm (s : List Char) : StringForm :=
  let controls := s.any fun c => isControl c && c != '\n'
  let backslashes := s.contains '\\'
  let several := s.contains '\n'
  let singles := longestRun '\'' 0 0 s
  let doubles := longestRun '"' 0 0 s
  if !controls && !backslashes && doubles == 0 && !several then .basic
  else if !controls && singles == 0 && !several then .literal
  else if !controls && !backslashes && decide (doubles ≤ 2) then .basicLines
  else if !controls && decide (singles ≤ 2) then .literalLines
  else if several then .basicLines
  else .basic

def upperHex4 (n : Nat) : List Char :=
  [n / 4096 % 16, n / 256 % 16, n / 16 % 16, n % 16].map fun d => (Nat.digitChar d).toUpper

def basicChars (severalLines : Bool) (quotes : Nat) (run : Nat) : List Char → List Char
  | [] => []
  | c :: rest =>
      if c = '"' then
        if run < quotes then c :: basicChars severalLines quotes (run + 1) rest
        else '\\' :: '"' :: basicChars severalLines quotes 0 rest
      else
        let written :=
          if c.toNat = 0x8 then ['\\', 'b']
          else if c = '\t' then ['\\', 't']
          else if c = '\n' then (if severalLines then [c] else ['\\', 'n'])
          else if c.toNat = 0xC then ['\\', 'f']
          else if c = '\r' then ['\\', 'r']
          else if c = '\\' then ['\\', '\\']
          else if isControl c then '\\' :: 'u' :: upperHex4 c.toNat
          else [c]
        written ++ basicChars severalLines quotes 0 rest

def stringText (s : String) : String :=
  let cs := s.toList
  let start := if cs.contains '\n' then "\n" else ""
  match stringForm cs with
  | .basic => "\"" ++ String.ofList (basicChars false 0 0 cs) ++ "\""
  | .literal => "'" ++ s ++ "'"
  | .basicLines => "\"\"\"" ++ start ++ String.ofList (basicChars true 2 0 cs) ++ "\"\"\""
  | .literalLines => "'''" ++ start ++ s ++ "'''"

end Scenograph.Toml
