namespace Scenograph

inductive Language where
  | csharp
  | cppWinRT
  | cppCX
  deriving DecidableEq, Repr, Inhabited

namespace Language

def all : List Language :=
  [.csharp, .cppWinRT, .cppCX]

def name : Language → String
  | .csharp => "csharp"
  | .cppWinRT => "cppwinrt"
  | .cppCX => "cx"

def isSplit : Language → Bool
  | .csharp => false
  | .cppWinRT | .cppCX => true

def ofText? (text : String) : Option Language :=
  let lower := String.ofList (text.toList.map Char.toLower)
  if lower = "csharp" ∨ lower = "cs" then some .csharp
  else if lower = "cppwinrt" ∨ lower = "cpp" then some .cppWinRT
  else if lower = "cx" then some .cppCX
  else none

def unknownMessage (text : String) : String :=
  "unknown target language '" ++ String.ofList (text.toList.map Char.toLower) ++ "'"

end Language

end Scenograph
