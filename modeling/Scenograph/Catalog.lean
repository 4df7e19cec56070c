namespace Scenograph

structure Catalog (α : Type) where
  entries : List (String × α)
  deriving DecidableEq, Repr

namespace Catalog

variable {α : Type}

def empty : Catalog α :=
  ⟨[]⟩

def insertEntry (key : String) (value : α) : List (String × α) → List (String × α)
  | [] => [(key, value)]
  | (k, v) :: rest =>
      if key < k then (key, value) :: (k, v) :: rest
      else if key = k then (key, value) :: rest
      else (k, v) :: insertEntry key value rest

def insert (c : Catalog α) (key : String) (value : α) : Catalog α :=
  ⟨insertEntry key value c.entries⟩

def get? (c : Catalog α) (key : String) : Option α :=
  c.entries.lookup key

def contains (c : Catalog α) (key : String) : Bool :=
  (c.get? key).isSome

def keys (c : Catalog α) : List String :=
  c.entries.map (·.1)

def values (c : Catalog α) : List α :=
  c.entries.map (·.2)

def size (c : Catalog α) : Nat :=
  c.entries.length

def isEmpty (c : Catalog α) : Bool :=
  c.entries.isEmpty

def ofList (items : List (String × α)) : Catalog α :=
  items.foldl (fun c item => c.insert item.1 item.2) empty

def sortedTexts (texts : List String) : List String :=
  (ofList (texts.map fun t => (t, ()))).keys

end Catalog

end Scenograph
