import Scenograph.Catalog

namespace Scenograph

structure Asset where
  id : String
  uri : String
  width : Float
  height : Float
  deriving DecidableEq, Repr

abbrev Registry := Catalog Asset

namespace Registry

def register (r : Registry) (asset : Asset) : Registry :=
  r.insert asset.id asset

def ofAssets (assets : List Asset) : Registry :=
  assets.foldl register Catalog.empty

end Registry

end Scenograph
