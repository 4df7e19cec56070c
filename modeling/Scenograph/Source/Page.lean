import Scenograph.Text.Blank

namespace Scenograph

structure Line where
  level : Nat
  text : String
  deriving DecidableEq, Repr

structure Page where
  lines : List Line := []
  level : Nat := 0
  deriving DecidableEq, Repr

namespace Page

def empty : Page := {}

def startingAt (level : Nat) : Page :=
  { level }

def line (p : Page) (text : String) : Page :=
  { p with lines := p.lines ++ [⟨p.level, text⟩] }

def linesOf (p : Page) (texts : List String) : Page :=
  texts.foldl line p

def blank (p : Page) : Page :=
  p.line ""

def comment (p : Page) (text : String) : Page :=
  p.linesOf ((textLines text).map fun l => String.ofList (trimEnd ('/' :: '/' :: ' ' :: l)))

def indent (p : Page) : Page :=
  { p with level := p.level + 1 }

def unindent (p : Page) : Page :=
  { p with level := p.level - 1 }

def openScope (p : Page) : Page :=
  (p.line "\x7b").indent

def closeScopeWith (p : Page) (text : String) : Page :=
  p.unindent.line text

def closeScope (p : Page) : Page :=
  p.closeScopeWith "\x7d"

def append (p other : Page) : Page :=
  { p with lines := p.lines ++ other.lines.map fun l => { l with level := p.level + l.level } }

def lineCount (p : Page) : Nat :=
  p.lines.length

def isEmpty (p : Page) : Bool :=
  p.lines.isEmpty

end Page

def Line.render (l : Line) : List Char :=
  if l.text.isEmpty then ['\n']
  else List.replicate (4 * l.level) ' ' ++ (l.text.toList ++ ['\n'])

def Page.render (p : Page) : String :=
  String.ofList (p.lines.flatMap Line.render)

end Scenograph
