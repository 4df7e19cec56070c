import Scenograph.Document.Graph
import Scenograph.Settings
import Scenograph.Target

namespace Scenograph

structure Scene where
  width : Float
  height : Float
  seconds : Float
  graph : Graph

inductive SceneFault where
  | refused (why : Refusal)
  | emptyCanvas
  | badDuration
  | durationTooLong (seconds : Float)
  | faulty (fault : Fault)
  deriving DecidableEq, Repr

def SceneFault.messages : SceneFault → List String
  | .refused .malformed => ["the text is not a document of the expected form"]
  | .refused (.faulty fault) => [fault.message]
  | .emptyCanvas => ["canvas size must be positive"]
  | .badDuration => ["duration must be a non-negative number of seconds"]
  | .durationTooLong seconds =>
      ["duration of " ++ (Binary.ofFloat seconds).plainText ++ "s is out of range",
        "cannot convert float seconds to Duration: value is either too big or NaN"]
  | .faulty fault => [fault.message]

def nanosecondsOf? (seconds : Float) : Option Nat :=
  match Binary.ofFloat seconds with
  | .finite negative significand exponent =>
      let n :=
        if 0 ≤ exponent then significand * Nat.pow 2 exponent.toNat * Nat.pow 10 9
        else roundQuotient (significand * Nat.pow 10 9) (Nat.pow 2 (-exponent).toNat)
      if (negative ∧ significand ≠ 0) ∨ Nat.pow 2 64 * Nat.pow 10 9 ≤ n then none else some n
  | _ => none

namespace Scene

def toJson (s : Scene) : Json :=
  .record
    [("width", .float s.width), ("height", .float s.height), ("duration_seconds", .float s.seconds),
      ("graph", s.graph.toJson)]

def decoder : Decoder Scene :=
  .record <| (Fields.start Scene.mk)
    |>.andThen (.required "width" .float)
    |>.andThen (.required "height" .float)
    |>.andThen (.required "duration_seconds" .float)
    |>.andThen (.required "graph" Graph.decoder)

def target (s : Scene) (settings : CodeSettings) : Except SceneFault Target :=
  match nanosecondsOf? s.seconds with
  | none => .error (.durationTooLong s.seconds)
  | some nanoseconds =>
      let t : Target := {
        language := settings.language
        modern := settings.modern
        size := ⟨s.width, s.height⟩
        nanoseconds
        space := settings.space
        className := settings.className }
      match t.ticks with
      | .ok _ => .ok t
      | .error fault => .error (.faulty fault)

def check (s : Scene) : Except SceneFault Unit := do
  unless 0 < s.width && 0 < s.height do
    throw .emptyCanvas
  unless s.seconds.isFinite && 0 ≤ s.seconds do
    throw .badDuration
  let _ ← s.target {}
  return ()

def ofText (text : String) : Except SceneFault Scene := do
  match decoder.decodeText text with
  | .error why => throw (.refused why)
  | .ok s =>
      s.check
      return s

end Scene

end Scenograph
