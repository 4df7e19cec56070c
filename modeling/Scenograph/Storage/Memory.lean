import Scenograph.Catalog
import Scenograph.Storage.Basic

namespace Scenograph

structure Memory where
  files : Catalog String := Catalog.empty
  folders : List String := []
  clock : String := "0.0"

namespace Memory

inductive Entry where
  | file (text : String)
  | folder
  | absent
  deriving DecidableEq, Repr

def pathText (names : List String) : String :=
  String.intercalate "/" names

def entryAt (d : Memory) (names : List String) : Entry :=
  let path := pathText names
  match d.files.get? path with
  | some text => .file text
  | none => if names.isEmpty || d.folders.contains path then .folder else .absent

def names? (path : String) : Option (List String) :=
  if path.isEmpty || path.toList.head? == some '/' then none
  else some (path.splitOn "/")

def follow (d : Memory) (folder : List String) : List String → Except StorageError (List String)
  | [] => .ok folder
  | name :: rest =>
      if name = "" ∨ name = "." then d.follow folder rest
      else if name = ".." then
        if folder.isEmpty then .error .notFound else d.follow folder.dropLast rest
      else
        let inner := folder ++ [name]
        if rest.isEmpty then .ok inner
        else
          match d.entryAt inner with
          | .folder => d.follow inner rest
          | .file _ => .error .notFolder
          | .absent => .error .notFound

def locate (d : Memory) (path : String) : Except StorageError (List String) :=
  match names? path with
  | some names => d.follow [] names
  | none => .error .notFound

def read (d : Memory) (path : String) : Except StorageError String := do
  match d.entryAt (← d.locate path) with
  | .file text => return text
  | .folder => throw .isFolder
  | .absent => throw .notFound

def write (d : Memory) (path text : String) : Except StorageError Memory := do
  let names ← d.locate path
  match d.entryAt names with
  | .folder => throw .isFolder
  | _ => return { d with files := d.files.insert (pathText names) text }

def makeFoldersFrom (d : Memory) (folder : List String) :
    List String → Except StorageError Memory
  | [] => .ok d
  | name :: rest =>
      if name = "" ∨ name = "." then d.makeFoldersFrom folder rest
      else if name = ".." then
        if folder.isEmpty then .error .notFound else d.makeFoldersFrom folder.dropLast rest
      else
        let inner := folder ++ [name]
        match d.entryAt inner with
        | .folder => d.makeFoldersFrom inner rest
        | .file _ => if rest.isEmpty then .error .exists else .error .notFolder
        | .absent =>
            { d with folders := pathText inner :: d.folders }.makeFoldersFrom inner rest

def makeFolders (d : Memory) (path : String) : Except StorageError Memory :=
  match names? path with
  | some names => d.makeFoldersFrom [] names
  | none => .error .notFound

def holds (d : Memory) (path : String) : Bool :=
  match d.locate path with
  | .ok names => d.entryAt names != .absent
  | .error _ => false

def foldersOf (path : String) : List String :=
  let names := path.splitOn "/"
  (List.range (names.length - 1)).map fun n => pathText (names.take (n + 1))

def ofFiles (files : List (String × String)) (clock : String) : Memory where
  files := Catalog.ofList files
  folders := files.flatMap fun f => foldersOf f.1
  clock := clock

def changes (before after : Memory) : List (String × String) :=
  after.files.entries.filter fun f => before.files.get? f.1 != some f.2

def attempt (change : Memory → Except StorageError Memory) :
    StateM Memory (Except StorageError Unit) := fun d =>
  match change d with
  | .ok d => (.ok (), d)
  | .error e => (.error e, d)

def storage : Storage (StateM Memory) where
  read path := do return (← get).read path
  write path text := attempt fun d => d.write path text
  makeFolders path := attempt fun d => d.makeFolders path
  holds path := do return (← get).holds path
  elapsed := do return (← get).clock

end Memory

end Scenograph
