import Scenograph.Command.Basic

namespace Scenograph

inductive OptionKey where
  | config
  | language
  | space
  | className
  | modern
  | folder
  deriving DecidableEq, Repr

namespace OptionKey

def ofLong? : String → Option OptionKey
  | "config" => some .config
  | "language" => some .language
  | "namespace" => some .space
  | "class-name" => some .className
  | "modern" => some .modern
  | "out-dir" => some .folder
  | _ => none

def ofShort? : Char → Option OptionKey
  | 'c' => some .config
  | 'l' => some .language
  | 'o' => some .folder
  | _ => none

end OptionKey

def path? (text : String) : Option String :=
  if text.isEmpty then none else some text

namespace GenerateOptions

def once {α : Type} (current : Option α) (value : Option α) : Option (Option α) :=
  match current, value with
  | none, some a => some (some a)
  | _, _ => none

def set (options : GenerateOptions) (key : OptionKey) (value : String) :
    Option GenerateOptions := do
  match key with
  | .config => return { options with config := ← once options.config (path? value) }
  | .language => return { options with language := ← once options.language (Language.ofText? value) }
  | .space => return { options with space := ← once options.space (some value) }
  | .className => return { options with className := ← once options.className (some value) }
  | .folder => return { options with folder := ← once options.folder (path? value) }
  | .modern => none

def setModern (options : GenerateOptions) : Option GenerateOptions :=
  if options.modern then none else some { options with modern := true }

end GenerateOptions

structure Arguments where
  positional : Option String := none
  options : GenerateOptions := {}
  deriving DecidableEq, Repr

inductive Parsed where
  | arguments (a : Arguments)
  | help
  deriving DecidableEq, Repr

namespace Arguments

def addPositional (a : Arguments) (text : String) : Option Arguments := do
  if a.positional.isSome then none else some { a with positional := some (← path? text) }

def addOption (a : Arguments) (key : OptionKey) (value : String) : Option Arguments := do
  return { a with options := ← a.options.set key value }

def isValue (text : String) : Bool :=
  match text.toList with
  | '-' :: _ :: _ => false
  | _ => true

def splitEquals (cs : List Char) : String × Option String :=
  match cs.span (· != '=') with
  | (name, []) => (String.ofList name, none)
  | (name, _ :: value) => (String.ofList name, some (String.ofList value))

def parse (hasOptions : Bool) (a : Arguments) : List String → Option Parsed
  | [] => some (.arguments a)
  | text :: rest =>
      match text.toList with
      | ['-', '-'] => do return .arguments (← rest.foldlM addPositional a)
      | '-' :: '-' :: long =>
          match splitEquals long with
          | ("help", none) => some .help
          | (name, value) => do
              let key ← OptionKey.ofLong? name
              if !hasOptions then none
              else if key = .modern then
                if value.isSome then none
                else parse hasOptions { a with options := ← a.options.setModern } rest
              else
                match value, rest with
                | some value, rest => parse hasOptions (← a.addOption key value) rest
                | none, value :: rest =>
                    if isValue value then parse hasOptions (← a.addOption key value) rest
                    else none
                | none, [] => none
      | ['-', 'h'] => some .help
      | '-' :: 'h' :: _ => some .help
      | '-' :: short :: attached => do
          let key ← OptionKey.ofShort? short
          if !hasOptions then none
          else
            match attached, rest with
            | '=' :: value, rest =>
                parse hasOptions (← a.addOption key (String.ofList value)) rest
            | c :: value, rest =>
                parse hasOptions (← a.addOption key (String.ofList (c :: value))) rest
            | [], value :: rest =>
                if isValue value then parse hasOptions (← a.addOption key value) rest else none
            | [], [] => none
      | _ => do parse hasOptions (← a.addPositional text) rest

end Arguments

namespace Command

def topic? : String → Option Topic
  | "generate" => some .generate
  | "check" => some .check
  | "optimize" => some .optimize
  | "init-config" => some .initConfig
  | "help" => some .help
  | _ => none

def make? (topic : Topic) (a : Arguments) : Option Command :=
  match topic, a.positional with
  | .generate, some input => some (.generate input a.options)
  | .check, some input => some (.check input)
  | .optimize, some input => some (.optimize input)
  | .initConfig, path => some (.initConfig (path.getD "lottiegen.toml"))
  | _, _ => none

def parse? : List String → Option Command
  | [] => none
  | "--version" :: _ => some .version
  | "--help" :: _ => some (.help .program)
  | "help" :: rest =>
      match rest with
      | [] => some (.help .program)
      | [name] => (topic? name).map .help
      | _ => none
  | first :: rest =>
      match first.toList with
      | '-' :: 'V' :: _ => some .version
      | '-' :: 'h' :: _ => some (.help .program)
      | _ => do
          let topic ← topic? first
          match ← Arguments.parse (topic = .generate) {} rest with
          | .help => return .help topic
          | .arguments a => make? topic a

end Command

end Scenograph
