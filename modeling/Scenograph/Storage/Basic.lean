namespace Scenograph

inductive StorageError where
  | notFound
  | exists
  | notFolder
  | isFolder
  | other (text : String)
  deriving DecidableEq, Repr

def StorageError.message : StorageError → String
  | .notFound => "No such file or directory (os error 2)"
  | .exists => "File exists (os error 17)"
  | .notFolder => "Not a directory (os error 20)"
  | .isFolder => "Is a directory (os error 21)"
  | .other text => text

structure Storage (m : Type → Type) where
  read : String → m (Except StorageError String)
  write : String → String → m (Except StorageError Unit)
  makeFolders : String → m (Except StorageError Unit)
  holds : String → m Bool
  elapsed : m String

def pathIn (folder name : String) : String :=
  if folder.isEmpty || folder.toList.getLast? == some '/' then folder ++ name
  else folder ++ "/" ++ name

end Scenograph
