import Fern.CommandLine.Options
import Fern.Diagnostic.Render
import Fern.Parsing.Item
import Fern.Program.Dump
import Fern.Token.Stream
import Fern.Typing.Checker

/-!
The passes over one file, and what is printed after each.

* `Backend`: the generation of code, which belongs to another program.
* `Session`: the text of a file, the name it is called by, and what was asked for.
* `Stage`: what a pass starts from. `Stage.run` is the pass itself.
* `Session.report`: what is printed after a pass, and its product if the run goes on.
* `Session.runPasses`: all passes from a stage on. The first that finds an error is the last that
  runs.

The passes record what they find in one log. The pending warnings are taken out of it and printed
after each pass; the errors stay in it, and end the run.
-/

namespace Fern.CommandLine

/-- The two texts that a run prints. -/
structure Output where
  stdout : String := ""
  stderr : String := ""
deriving Repr, DecidableEq

/-- The texts that are printed one after the other. -/
def Output.join (os : List Output) : Output :=
  ⟨String.join (os.map stdout), String.join (os.map stderr)⟩

/-- The result of a run: what it printed and its exit status. -/
structure Outcome where
  output : Output
  status : Nat
deriving Repr, DecidableEq

/-- What is left to another program: to make code of a checked program. -/
structure Backend where
  /-- The text of the module of a program with its types, under a name, after what was recorded
  before, and what is recorded then. -/
  generate : Program → Array Ty → String → Log → String × Log

/-- Without the other program there is no code. -/
def Backend.absent : Backend := ⟨fun _ _ _ log => ("", log)⟩

/-- What the time is taken for: a pass, or all of them. -/
inductive Lap where
  | pass (p : Phase)
  | total
deriving Repr, DecidableEq

/-- What a pass starts from. -/
inductive Stage where
  | text
  | tokens (ts : List Token)
  | program (p : Program)
  | checked (p : Program) (types : Array Ty)
deriving Repr, DecidableEq

/-- What a pass produces. -/
inductive Product where
  | tokens (ts : List Token)
  | program (p : Program)
  | checked (p : Program) (types : Array Ty)
  | module (text : String)
deriving Repr, DecidableEq

/-- The text of a file, the name it is called by, and what was asked for. -/
structure Session where
  source : String
  name : String
  options : Options
deriving Repr, DecidableEq

namespace Stage

/-- The pass that starts from a stage. -/
def phase : Stage → Phase
  | text => .lexing
  | tokens _ => .parsing
  | program _ => .typing
  | checked _ _ => .generation

/-- Runs the pass that starts from a stage, after what was recorded before. -/
def run (s : Session) (b : Backend) : Stage → Log → Option Product × Log
  | text, log =>
    let (ts, log) := tokenize s.source log
    (ts.map .tokens, log)
  | tokens ts, log =>
    let (p, log) := parse ts log
    (p.map .program, log)
  | program p, log =>
    match typeCheck p log with
    | .ok (types, log) => (some (.checked p types), log)
    | .error _ => (none, log)
  | checked p types, log =>
    let (code, log) := b.generate p types s.name log
    (some (.module code), log)

/-- The number of passes from a stage on. -/
def passesLeft : Stage → Nat
  | text => 4
  | tokens _ => 3
  | program _ => 2
  | checked _ _ => 1

end Stage

namespace Product

/-- The stage that a product leads to. A module leads to none. -/
def stage? : Product → Option Stage
  | tokens ts => some (.tokens ts)
  | program p => some (.program p)
  | checked p types => some (.checked p types)
  | module _ => none

/-- The text of a module. -/
def module? : Product → Option String
  | module text => some text
  | _ => none

/-- What is dumped of a product, and the dump that has to be asked for. -/
def dump? : Product → Option (Dump × String)
  | tokens ts => some (.lex, String.join (ts.map fun t => t.text ++ "\n"))
  | program p => some (.parse, match p.dump with | .ok text => text | .error _ => "")
  | checked _ _ => none
  | module text => some (.codegen, text)

end Product

/-- The words by which a pass is called when its time is told. -/
def timingLabel : Phase → String
  | .lexing => "Tokenized"
  | .parsing => "Parsed"
  | .typing => "Type checked"
  | .generation => "Compiled"

/-- A pass that has run, and what was printed after it. -/
structure Step where
  phase : Phase
  output : Output
deriving Repr, DecidableEq

namespace Session

/-- The lines that tell how long a pass took, if they were asked for. The last pass tells how long
all of them took, too. -/
def timingLines (s : Session) (phase : Phase) (elapsed : Lap → String) : String :=
  if s.options.timings then
    timingLabel phase ++ " in " ++ elapsed (.pass phase) ++ "\n" ++
      if phase = .generation then "Total time for IR generation: " ++ elapsed .total ++ "\n" else ""
  else ""

/-- The written forms of findings, one after the other. -/
def render (s : Session) (ds : List Diagnostic) : String :=
  String.join (ds.map fun d => d.render s.source.toList s.name)

/-- The line that counts the errors. -/
def countLine (log : Log) : String := "Generated " ++ toString log.errorCount ++ " error(s)\n"

/-- What is printed of a log: the warnings, then the errors and their number. -/
def findings (s : Session) (log : Log) : String :=
  s.render log.flushWarnings.1 ++
    if log.hasErrors then s.render log.errors ++ countLine log else ""

/-- The dump of a product, if it was asked for. -/
def dump (s : Session) (p : Product) : String :=
  match p.dump? with
  | some (kind, text) => if kind ∈ s.options.dumps then text else ""
  | none => ""

/-- What is printed after a pass, and its product if the run goes on. -/
def report (s : Session) (phase : Phase) (elapsed : Lap → String) (found : Option Product × Log) :
    Output × Option Product :=
  let stderr := s.timingLines phase elapsed ++ s.findings found.2
  if found.2.hasErrors then (⟨"", stderr⟩, none)
  else
    match found.1 with
    | none => (⟨"", stderr⟩, none)
    | some p => (⟨s.dump p, stderr⟩, some p)

/-- Runs up to `n` passes from a stage on, after what was recorded before; `elapsed` tells how long
each took. The text of the module comes with the passes that have run, if all have a product. -/
def runPasses (s : Session) (b : Backend) (elapsed : Lap → String) :
    Nat → Stage → Log → List Step × Option String
  | 0, _, _ => ([], none)
  | n + 1, stage, log =>
    let found := stage.run s b log
    let (output, product) := s.report stage.phase elapsed found
    let step := ⟨stage.phase, output⟩
    match product with
    | none => ([step], none)
    | some p =>
      match p.stage? with
      | none => ([step], p.module?)
      | some next =>
        let (steps, text) := s.runPasses b elapsed n next found.2.flushWarnings.2
        (step :: steps, text)

/-- Runs all passes from a stage on, with nothing recorded before. -/
def runFrom (s : Session) (b : Backend) (elapsed : Lap → String) (stage : Stage) :
    List Step × Option String :=
  s.runPasses b elapsed stage.passesLeft stage .empty

end Session

end Fern.CommandLine
