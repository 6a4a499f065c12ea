import Fern.Location
import Fern.Problem

/-!
Diagnostics: a problem, where it is, how much it matters, and remarks on it.

* `Diagnostic`: one finding. `Diagnostic.error` and `Diagnostic.warning` make one without notes.
* `Diagnostic.addNote`: a further remark, after those it has.
-/

namespace Fern

/-- An error keeps a program from going on to the next pass, a warning does not. -/
inductive Severity where
  | error
  | warning
deriving Repr, DecidableEq

/-- The word that a report uses for a severity. -/
def Severity.name : Severity → String
  | .error => "error"
  | .warning => "warning"

/-- One finding about a program. -/
structure Diagnostic where
  problem : Problem
  location : Location
  severity : Severity := .error
  notes : List String := []
deriving Repr, DecidableEq

namespace Diagnostic

/-- An error without notes. -/
def error (p : Problem) (l : Location) : Diagnostic := ⟨p, l, .error, []⟩

/-- A warning without notes. -/
def warning (p : Problem) (l : Location) : Diagnostic := ⟨p, l, .warning, []⟩

/-- The finding with one more note, after those it has. -/
def addNote (d : Diagnostic) (note : String) : Diagnostic :=
  { d with notes := d.notes ++ [note] }

/-- The wording of the problem. -/
def message (d : Diagnostic) : String := d.problem.message

/-- The pass that found the problem. -/
def phase (d : Diagnostic) : Phase := d.problem.phase

/-- A line of help, where the problem has one. -/
def hint (d : Diagnostic) : Option String := d.problem.hint

end Diagnostic

end Fern
