import Scenograph.Command.Arguments
import Scenograph.Command.Help
import Scenograph.Document.Layer
import Scenograph.Lowering.ClassUnit
import Scenograph.Rendering.Simplify
import Scenograph.Scene
import Scenograph.Storage.Basic

namespace Scenograph

structure Failure where
  top : String
  causes : List String := []
  deriving DecidableEq, Repr

namespace Failure

def causeText (margin : Nat) (label cause : String) : String :=
  let further := "\n" ++ String.ofList (List.replicate margin ' ')
  label ++ String.intercalate further (cause.splitOn "\n") ++ "\n"

def numbered (n : Nat) : List String → List String
  | [] => []
  | cause :: rest => causeText 7 ("    " ++ shown n ++ ": ") cause :: numbered (n + 1) rest

def report (f : Failure) : String :=
  let causes := match f.causes with
    | [] => []
    | [cause] => ["\nCaused by:\n", causeText 4 "    " cause]
    | causes => "\nCaused by:\n" :: numbered 0 causes
  "Error: " ++ f.top ++ "\n" ++ String.join causes

end Failure

inductive Outcome where
  | done (output : String)
  | failed (output : String) (failure : Failure)
  | misused
  deriving DecidableEq, Repr

namespace Outcome

def exitCode : Outcome → Nat
  | .done _ => 0
  | .failed _ _ => 1
  | .misused => 2

def output : Outcome → String
  | .done output | .failed output _ => output
  | .misused => ""

def report : Outcome → String
  | .done _ => ""
  | .failed _ failure => failure.report
  | .misused => Topic.usage .program ++ "\n"

end Outcome

abbrev Run (m : Type → Type) := ExceptT Failure (StateT String m)

namespace Run

variable {m : Type → Type} [Monad m]

def ask {α : Type} (request : m α) : Run m α :=
  ExceptT.lift (StateT.lift request)

def printLine (line : String) : Run m Unit :=
  modify (· ++ line ++ "\n")

def orFail {α ε : Type} (top : String) (causes : ε → List String) : Except ε α → Run m α
  | .ok a => pure a
  | .error e => throw ⟨top, causes e⟩

def settingsCauses (e : StorageError) : List String :=
  ["IO error: " ++ e.message, e.message]

variable (storage : Storage m)

def loadSettings : Option String → Run m Settings
  | none => pure {}
  | some path => do
      let top := "failed to load config: " ++ path
      let text ← orFail top settingsCauses (← ask (storage.read path))
      match Settings.ofToml? text with
      | some settings => return settings
      | none => throw ⟨top, ["config error: the text is not a document of the expected form"]⟩

def loadScene (input : String) : Run m Scene := do
  let text ← orFail ("failed to read graph document: " ++ input) (fun e => [e.message])
    (← ask (storage.read input))
  orFail ("invalid graph document: " ++ input) SceneFault.messages (Scene.ofText text)

def orReport {α : Type} : Except SceneFault α → Run m α
  | .ok a => pure a
  | .error e =>
      match e.messages with
      | top :: causes => throw ⟨top, causes⟩
      | [] => throw ⟨"", []⟩

def applied (settings : CodeSettings) (options : GenerateOptions) : CodeSettings where
  language := options.language.getD settings.language
  space := options.space.getD settings.space
  className := options.className.getD settings.className
  modern := options.modern || settings.modern

def writeFile (folder : String) (file : SourceFile) : Run m Unit := do
  let path := pathIn folder file.name
  orFail ("failed to write " ++ path) (fun e => [e.message])
    (← ask (storage.write path file.text))
  printLine ("   wrote " ++ path)

def printAssets (assets : List String) : Run m Unit := do
  unless assets.isEmpty do
    printLine "   assets:"
    assets.forM fun id => printLine ("     " ++ id)

def generate (input : String) (options : GenerateOptions) : Run m Unit := do
  let settings ← loadSettings storage options.config
  let folder := options.folder.getD settings.output.directory
  let scene ← loadScene storage input
  let target ← orReport (scene.target (applied settings.code options))
  let generated ← orFail ("failed to generate code for " ++ input) (fun e => [e.message])
    (scene.graph.generate target target.language)
  unless folder.isEmpty do
    orFail ("failed to create output directory: " ++ folder) (fun e => [e.message])
      (← ask (storage.makeFolders folder))
  generated.files.forM (writeFile storage folder)
  printAssets generated.assets
  printLine ("   " ++ generated.language.name ++ " in " ++ (← ask storage.elapsed) ++ "ms (hash "
    ++ Fingerprint.short generated.fingerprint ++ ")")

def check (input : String) : Run m Unit := do
  let graph := (← loadScene storage input).graph
  orFail (input ++ " is not a valid graph") (fun e => [e.message]) graph.validate
  let reachable ← orReport (graph.preorder.mapError .faulty)
  printLine ("   " ++ input ++ ": " ++ shown graph.size ++ " objects, " ++ shown reachable.length
    ++ " reachable, " ++ shown graph.bindings.size ++ " bindings")

def optimize (input : String) : Run m Unit := do
  let text ← orFail ("failed to read rendering context: " ++ input) (fun e => [e.message])
    (← ask (storage.read input))
  let context ← orFail ("invalid rendering context: " ++ input)
    (fun why => (SceneFault.refused why).messages) (Context.decoder.decodeText text)
  printLine context.simplify.toJson.pretty

def initConfig (path : String) : Run m Unit := do
  if ← ask (storage.holds path) then
    throw ⟨"'" ++ path ++ "' already exists", []⟩
  orFail ("failed to write config: " ++ path) settingsCauses
    (← ask (storage.write path ({} : Settings).toToml))
  printLine ("   wrote " ++ path)

def command : Command → Run m Unit
  | .generate input options => generate storage input options
  | .check input => check storage input
  | .optimize input => optimize storage input
  | .initConfig path => initConfig storage path
  | .version => printLine "lottiegen 0.1.0"
  | .help topic => modify (· ++ topic.text)

end Run

def runArguments {m : Type → Type} [Monad m] (storage : Storage m) (arguments : List String) :
    m Outcome := do
  match Command.parse? arguments with
  | none => return .misused
  | some command =>
      match ← (Run.command storage command).run.run "" with
      | (.ok (), output) => return .done output
      | (.error failure, output) => return .failed output failure

end Scenograph
