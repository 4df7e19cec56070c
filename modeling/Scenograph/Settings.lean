import Scenograph.Language
import Scenograph.Toml.Print
import Scenograph.Toml.Reader

namespace Scenograph

structure CodeSettings where
  language : Language := .csharp
  space : String := "AnimatedVisuals"
  className : String := "AnimatedVisual"
  modern : Bool := false
  deriving DecidableEq, Repr, Inhabited

structure OutputSettings where
  directory : String := "."
  deriving DecidableEq, Repr, Inhabited

structure Settings where
  code : CodeSettings := {}
  output : OutputSettings := {}
  deriving DecidableEq, Repr, Inhabited

namespace Settings

def emptyCollection : Toml → Bool
  | .array [] | .tables [] | .table _ [] => true
  | _ => false

def language? : Toml → Option Language
  | .string s => Language.all.find? (·.name == s)
  | .table _ [(key, v)] =>
      if emptyCollection v then Language.all.find? (·.name == key) else none
  | _ => none

def string? : Toml → Option String
  | .string s => some s
  | _ => none

def boolean? : Toml → Option Bool
  | .boolean b => some b
  | _ => none

inductive FieldSource where
  | named (entries : Toml.Entries)
  | positional (items : List Toml)

def FieldSource.of? : Toml → Option FieldSource
  | .table _ entries => some (.named entries)
  | .array items => some (.positional items)
  | .tables items => some (.positional (items.map (.table .header)))
  | .dateTime _ => some (.named [])
  | _ => none

/-- What stands under other names is passed over, but its numbers have to have values. Nothing looks
at items past the last field. -/
def FieldSource.restReadable (source : FieldSource) (keys : List String) : Bool :=
  match source with
  | .named entries => Toml.entriesHaveValues (entries.filter fun e => !keys.contains e.1)
  | .positional _ => true

def FieldSource.get {α : Type} (source : FieldSource) (key : String) (place : Nat)
    (read? : Toml → Option α) (absent : α) : Option α :=
  let found := match source with
    | .named entries => entries.lookup key
    | .positional items => items[place]?
  match found with
  | some v => read? v
  | none => some absent

def codeSettings? (v : Toml) : Option CodeSettings := do
  let source ← FieldSource.of? v
  guard (source.restReadable ["language", "namespace", "class_name", "modern_runtime"])
  let d : CodeSettings := {}
  return {
    language := ← source.get "language" 0 language? d.language
    space := ← source.get "namespace" 1 string? d.space
    className := ← source.get "class_name" 2 string? d.className
    modern := ← source.get "modern_runtime" 3 boolean? d.modern }

def outputSettings? (v : Toml) : Option OutputSettings := do
  let source ← FieldSource.of? v
  guard (source.restReadable ["directory"])
  return { directory := ← source.get "directory" 0 string? ({} : OutputSettings).directory }

def ofToml? (text : String) : Option Settings := do
  let root := FieldSource.named (← Toml.read text)
  guard (root.restReadable ["codegen", "output"])
  return {
    code := ← root.get "codegen" 0 codeSettings? {}
    output := ← root.get "output" 1 outputSettings? {} }

def toToml (s : Settings) : String :=
  "[codegen]\n"
    ++ "language = " ++ Toml.stringText s.code.language.name ++ "\n"
    ++ "namespace = " ++ Toml.stringText s.code.space ++ "\n"
    ++ "class_name = " ++ Toml.stringText s.code.className ++ "\n"
    ++ "modern_runtime = " ++ (if s.code.modern then "true" else "false") ++ "\n"
    ++ "\n[output]\n"
    ++ "directory = " ++ Toml.stringText s.output.directory ++ "\n"

def toJson (s : Settings) : Json :=
  .record
    [("codegen", .record
        [("language", .text s.code.language.name), ("namespace", .text s.code.space),
          ("class_name", .text s.code.className), ("modern_runtime", .bool s.code.modern)]),
      ("output", .record [("directory", .text s.output.directory)])]

end Settings

end Scenograph
