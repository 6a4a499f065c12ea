import Fern.Diagnostic

/-!
The record of what the passes find.

* `Log`: the errors and the pending warnings, each in the order of their recording.
* `Log.record`, `Log.recordError`, `Log.recordWarning`, `Log.recordNote`: the ways to add to it. A
  note goes to the last error, whatever was recorded since; without an error it is dropped.
* `Log.flushWarnings`: hands over the pending warnings and forgets them.
-/

namespace Fern

/-- Applies `f` to the last entry of a list, if it has one. -/
def modifyLast {α : Type} (f : α → α) : List α → List α
  | [] => []
  | [a] => [f a]
  | a :: b :: as => a :: modifyLast f (b :: as)

@[simp] theorem modifyLast_append_singleton {α : Type} (f : α → α) (as : List α) (a : α) :
    modifyLast f (as ++ [a]) = as ++ [f a] := by
  induction as with
  | nil => rfl
  | cons b bs ih => cases bs <;> simp_all [modifyLast]

@[simp] theorem length_modifyLast {α : Type} (f : α → α) (as : List α) :
    (modifyLast f as).length = as.length := by
  induction as with
  | nil => rfl
  | cons b bs ih => cases bs <;> simp_all [modifyLast]

/-- What has been found so far, each list in the order of recording. -/
structure Log where
  errors : List Diagnostic := []
  warnings : List Diagnostic := []
deriving Repr, DecidableEq

namespace Log

/-- Nothing found. -/
def empty : Log := ⟨[], []⟩

/-- Adds a finding to the errors, whatever its severity. -/
def record (g : Log) (d : Diagnostic) : Log :=
  { g with errors := g.errors ++ [d] }

/-- Adds an error without notes. -/
def recordError (g : Log) (p : Problem) (l : Location) : Log :=
  g.record (.error p l)

/-- Adds a warning without notes. -/
def recordWarning (g : Log) (p : Problem) (l : Location) : Log :=
  { g with warnings := g.warnings ++ [.warning p l] }

/-- Adds a note to the last error; drops it if there is none. -/
def recordNote (g : Log) (note : String) : Log :=
  { g with errors := modifyLast (·.addNote note) g.errors }

/-- Takes the pending warnings out. -/
def flushWarnings (g : Log) : List Diagnostic × Log :=
  (g.warnings, { g with warnings := [] })

/-- Whether any error has been recorded. -/
def hasErrors (g : Log) : Bool := !g.errors.isEmpty

/-- The number of recorded errors. -/
def errorCount (g : Log) : Nat := g.errors.length

end Log

end Fern
