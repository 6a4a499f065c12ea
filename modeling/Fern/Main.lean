import Fern.CommandLine.Duration
import Fern.CommandLine.Run

/-!
The command `fernc`: reads the arguments and the file, runs the passes with a clock, and prints.
-/

namespace Fern.CommandLine

/-- Prints what a run has to say. -/
def Output.print (o : Output) : IO Unit := do
  (← IO.getStdout).putStr o.stdout
  (← IO.getStderr).putStr o.stderr

/-- The text of a file, or the reason why there is none. -/
def readText (path : String) : IO (Except ReadFailure String) := do
  try
    let bytes ← IO.FS.readBinFile path
    return match String.fromUTF8? bytes with
      | some text => .ok text
      | none => .error .notText
  catch
    | .noFileOrDirectory .. => return .error .notFound
    -- a path through a file fails when it is opened, a directory only when it is read
    | .inappropriateType (some _) .. => return .error .notDirectory
    | .inappropriateType none .. => return .error .isDirectory
    | e => return .error (.other (toString e))

/-- Runs the passes from a stage on, prints after each, and gives the text of the module if all have
a product. -/
partial def Session.runTimed (s : Session) (b : Backend) (start : Nat) (stage : Stage) (log : Log) :
    IO (Option String) := do
  let before ← IO.monoNanosNow
  let found ← IO.lazyPure fun _ => stage.run s b log
  let after ← IO.monoNanosNow
  let elapsed : Lap → String
    | .pass _ => durationText (after - before)
    | .total => durationText (after - start)
  let (output, product) := s.report stage.phase elapsed found
  output.print
  match product with
  | none => return none
  | some p =>
    match p.stage? with
    | none => return p.module?
    | some next => s.runTimed b start next found.2.flushWarnings.2

end Fern.CommandLine

open Fern.CommandLine

/-- The command `fernc`, without a program that makes code: nothing is ever written to a file. -/
def main (ws : List String) : IO UInt32 := do
  match readArguments ws with
  | .error stop =>
    let outcome := stopOutcome stop
    outcome.output.print
    return outcome.status.toUInt32
  | .ok o =>
    match openSession o ((← readText o.file).mapError ReadFailure.reason) with
    | .error outcome =>
      outcome.output.print
      return outcome.status.toUInt32
    | .ok session =>
      match ← session.runTimed .absent (← IO.monoNanosNow) .text .empty with
      | none => return 1
      | some _ => return 0
