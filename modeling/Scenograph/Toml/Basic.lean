namespace Scenograph

/-- Where a table belongs, which decides what may still be added to it: it has a header of its own, it
is there because of the header of a table inside it, dotted keys made it or added to it, or it stands
between braces. -/
inductive TableOrigin where
  | header
  | implied
  | dotted
  | inline
  deriving DecidableEq, Repr

/-- A value of a document. A number has no value if it is out of range or has no proper digits; that
is a fault only where the value is asked for. -/
inductive Toml where
  | string (value : String)
  | integer (value : Option Int)
  | float (value : Option Float)
  | boolean (value : Bool)
  | dateTime (text : String)
  | array (items : List Toml)
  | tables (items : List (List (String × Toml)))
  | table (origin : TableOrigin) (entries : List (String × Toml))
  deriving Inhabited

namespace Toml

abbrev Entries := List (String × Toml)

mutual

def hasValues : Toml → Bool
  | .integer n => n.isSome
  | .float x => x.isSome
  | .array items => itemsHaveValues items
  | .tables items => tablesHaveValues items
  | .table _ entries => entriesHaveValues entries
  | .string _ | .boolean _ | .dateTime _ => true

def itemsHaveValues : List Toml → Bool
  | [] => true
  | v :: rest => hasValues v && itemsHaveValues rest

def entriesHaveValues : List (String × Toml) → Bool
  | [] => true
  | (_, v) :: rest => hasValues v && entriesHaveValues rest

def tablesHaveValues : List (List (String × Toml)) → Bool
  | [] => true
  | entries :: rest => entriesHaveValues entries && tablesHaveValues rest

end

abbrev Change := TableOrigin → Entries → Option (TableOrigin × Entries)

def replace (key : String) (value : Toml) (entries : Entries) : Entries :=
  entries.map fun e => if e.1 = key then (key, value) else e

def mayEnter (byDots : Bool) : TableOrigin → Bool
  | .inline => false
  | .header => !byDots
  | .implied | .dotted => true

def changeAt (byDots : Bool) (change : Change) : List String → Change
  | [], origin, entries => change origin entries
  | key :: path, origin, entries =>
      match entries.lookup key with
      | none => do
          let (o, es) ← changeAt byDots change path (if byDots then .dotted else .implied) []
          return (origin, entries ++ [(key, .table o es)])
      | some (.table o es) =>
          if mayEnter byDots o then do
            let (o, es) ← changeAt byDots change path (if byDots then .dotted else o) es
            return (origin, replace key (.table o es) entries)
          else none
      | some (.tables items) =>
          match items.getLast? with
          | none => none
          | some es => do
              let (_, es) ← changeAt byDots change path .header es
              return (origin, replace key (.tables (items.dropLast ++ [es])) entries)
      | some _ => none

def addKey (dottedPath : Bool) (key : String) (value : Toml) : Change := fun origin entries =>
  if (origin == .dotted) != dottedPath then none
  else if (entries.lookup key).isSome then none
  else some (origin, entries ++ [(key, value)])

def addDotted (path : List String) (key : String) (value : Toml) : Change :=
  changeAt true (addKey (!path.isEmpty) key value) path

def startTable (key : String) : Change := fun origin entries =>
  match entries.lookup key with
  | none => some (origin, entries ++ [(key, .table .header [])])
  | some (.table .implied es) => some (origin, replace key (.table .header es) entries)
  | some _ => none

def startArrayTable (key : String) : Change := fun origin entries =>
  match entries.lookup key with
  | none => some (origin, entries ++ [(key, .tables [[]])])
  | some (.tables items) => some (origin, replace key (.tables (items ++ [[]])) entries)
  | some _ => none

end Toml

end Scenograph
