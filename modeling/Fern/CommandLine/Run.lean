import Fern.CommandLine.Arguments
import Fern.CommandLine.Files

/-!
Command lines of `fernc` over files in memory.

* `stopOutcome`: the outcome of a command line that compiles nothing.
* `run`: what a command line prints, its exit status, and the files afterwards, without a program
  that makes code.
-/

namespace Fern.CommandLine

/-- The outcome of a command line that compiles nothing. -/
def stopOutcome : Stop → Outcome
  | .help => ⟨⟨helpText, ""⟩, 0⟩
  | .version => ⟨⟨versionText, ""⟩, 0⟩
  | .refused r => ⟨⟨"", r.text⟩, 2⟩

/-- What a command line prints, its exit status, and the files afterwards; `elapsed` tells how long
each pass took. -/
def run (files : FileTree) (elapsed : Lap → String) (ws : List String) : Outcome × FileTree :=
  match readArguments ws with
  | .error stop => (stopOutcome stop, files)
  | .ok o => runWith FileTree.host files elapsed o

end Fern.CommandLine
