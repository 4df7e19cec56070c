import Scenograph.Source.Page

namespace Scenograph

inductive Section where
  | preamble
  | hidden
  | internal
  | exposed
  | postamble
  deriving DecidableEq, Repr

structure Header where
  preamble : Page
  hidden : Page
  internal : Page
  exposed : Page
  postamble : Page
  deriving DecidableEq, Repr

namespace Header

def labelled (level : Nat) (label : String) : Page :=
  ((Page.startingAt level).line label).indent

def start (level : Nat) (hidden internal exposed : String) : Header where
  preamble := .empty
  hidden := labelled level hidden
  internal := labelled level internal
  exposed := labelled level exposed
  postamble := .startingAt level

def get (h : Header) : Section → Page
  | .preamble => h.preamble
  | .hidden => h.hidden
  | .internal => h.internal
  | .exposed => h.exposed
  | .postamble => h.postamble

def write (h : Header) (s : Section) (f : Page → Page) : Header :=
  match s with
  | .preamble => { h with preamble := f h.preamble }
  | .hidden => { h with hidden := f h.hidden }
  | .internal => { h with internal := f h.internal }
  | .exposed => { h with exposed := f h.exposed }
  | .postamble => { h with postamble := f h.postamble }

def omits (h : Header) : Section → Bool
  | .hidden => decide (h.hidden.lineCount ≤ 1)
  | .internal => decide (h.internal.lineCount ≤ 1)
  | _ => false

def order : List Section :=
  [.preamble, .hidden, .internal, .exposed, .postamble]

def render (h : Header) : String :=
  String.join ((order.filter fun s => !h.omits s).map fun s => (h.get s).render)

end Header

end Scenograph
