import Scenograph.Fault
import Scenograph.Geometry
import Scenograph.Spelling.Member
import Scenograph.Text.Identifier

namespace Scenograph

structure Target where
  language : Language
  modern : Bool := false
  size : Vector2 Float
  nanoseconds : Nat
  space : String := "AnimatedVisuals"
  className : String := "AnimatedVisual"
  deriving DecidableEq, Repr

namespace Target

def compositionSpace (t : Target) : String :=
  if t.modern then "Microsoft.UI.Composition" else "Windows.UI.Composition"

def mediaSpace (t : Target) : String :=
  if t.modern then "Microsoft.UI.Xaml.Media" else "Windows.UI.Xaml.Media"

def ticks (t : Target) : Except Fault Int :=
  let n := t.nanoseconds / 100
  if n < 0x8000000000000000 then .ok n
  else .error (.setting (.duration (t.nanoseconds / 1000000000)))

def check (t : Target) (writer : Language) : Except Fault Unit := do
  if writer ≠ t.language then
    throw (.unsupported writer (.otherLanguage t.language))
  if t.modern && !writer.supportsModernRuntime then
    throw (.unsupported writer .modernRuntime)
  if !isIdentifier t.className then
    throw (.setting (.className t.className))
  if !isDottedIdentifier t.space then
    throw (.setting (.namespaceName t.space))
  let _ ← t.ticks
  return ()

end Target

end Scenograph
