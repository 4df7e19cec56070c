import Scenograph.Command.Run

namespace Scenograph

def StorageError.ofError : IO.Error → StorageError
  | .noFileOrDirectory .. => .notFound
  | .alreadyExists .. => .exists
  | e => .other (toString e)

def attempted {α : Type} (request : IO α) : IO (Except StorageError α) := do
  try
    return .ok (← request)
  catch e =>
    return .error (.ofError e)

def millisecondsText (nanoseconds : Nat) : String :=
  let tenths := roundQuotient nanoseconds (Nat.pow 10 5)
  shown (tenths / 10) ++ "." ++ shown (tenths % 10)

def machine (start : Nat) : Storage IO where
  read path := attempted (IO.FS.readFile path)
  write path text := attempted (IO.FS.writeFile path text)
  makeFolders path := attempted (IO.FS.createDirAll path)
  holds path := do return (← attempted (IO.FS.realPath path)).toBool
  elapsed := do return millisecondsText ((← IO.monoNanosNow) - start)

end Scenograph

open Scenograph in
def main (arguments : List String) : IO UInt32 := do
  let outcome ← runArguments (machine (← IO.monoNanosNow)) arguments
  (← IO.getStdout).putStr outcome.output
  (← IO.getStderr).putStr outcome.report
  return outcome.exitCode.toUInt32
