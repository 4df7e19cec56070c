import Scenograph.Catalog
import Scenograph.Code.Member
import Scenograph.Spelling.Member

namespace Scenograph

def ClassUnit.namespaces (u : ClassUnit) (language : Language) : List String :=
  Catalog.sortedTexts (u.types.filterMap language.namespaceOf?)

end Scenograph
