import Scenograph.Spelling.Member

namespace Scenograph.Language

mutual

def writeNode (language : Language) : Node → Page → Page
  | .stmt s, out => out.line (language.statement s)
  | .block none nodes, out => (writeNodes language nodes out.openScope).closeScope
  | .block (some guard) nodes, out =>
      (writeNodes language nodes (out.line (language.guardLine guard)).openScope).closeScope

def writeNodes (language : Language) : List Node → Page → Page
  | [], out => out
  | n :: rest, out => writeNodes language rest (writeNode language n out)

end

/-- Writes the nodes of a tree. The guard of the tree itself is not written. -/
def writeTree (language : Language) (t : Tree) (out : Page) : Page :=
  language.writeNodes t.nodes out

def treePage (language : Language) (t : Tree) : Page :=
  language.writeTree t .empty

def writeMethod (language : Language) (className : String) (site : Site) (m : Method)
    (out : Page) : Page :=
  let out := match m.comment with
    | some text => out.comment text
    | none => out
  let out := (out.line (language.signature className site m)).openScope
  (language.writeTree m.body out).closeScope

def writeAccessor (language : Language) (className : String) (site : Site) (a : Accessor)
    (out : Page) : Page :=
  language.accessor className site a (language.treePage a.setter) out

end Scenograph.Language
