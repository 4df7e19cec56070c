namespace Scenograph

def isIdentifierStart (c : Char) : Bool :=
  c.isAlpha || c == '_'

def isIdentifierPart (c : Char) : Bool :=
  c.isAlphanum || c == '_'

def isIdentifier (name : String) : Bool :=
  match name.toList with
  | [] => false
  | c :: cs => isIdentifierStart c && cs.all isIdentifierPart

def splitDots (acc : List Char) : List Char → List (List Char)
  | [] => [acc]
  | '.' :: rest => acc :: splitDots [] rest
  | c :: rest => splitDots (acc ++ [c]) rest

def isDottedIdentifier (name : String) : Bool :=
  (splitDots [] name.toList).all fun part => isIdentifier (String.ofList part)

end Scenograph
