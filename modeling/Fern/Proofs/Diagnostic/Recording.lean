import Mathlib.Tactic
import Fern.Diagnostic.Log

/-!
Logs after any sequence of steps, told from the sequence alone.

* `Step`, `run`: what can be done with a log; the warnings that some steps hand over and the log
  after them.
* `leadingNotes`, `notedErrors`: the notes that still go to the error before some steps, and the
  errors that the steps record, each with the notes that go to it.
* `sinceFlush`: the steps after the last one that hands warnings over.
* `errors_run`, `warnings_run`: a run on any log. `pending_run`: the warnings that it leaves.
* `log_after_steps`: **nothing is lost, doubled or put out of order**.
-/

namespace Fern

/-- The finding with more notes, after those it has. -/
def Diagnostic.addNotes (d : Diagnostic) (notes : List String) : Diagnostic :=
  { d with notes := d.notes ++ notes }

/-- One change of the last entry after another. -/
lemma modifyLast_modifyLast {α : Type} (f g : α → α) (as : List α) :
    modifyLast g (modifyLast f as) = modifyLast (g ∘ f) as := by
  rcases List.eq_nil_or_concat as with rfl | ⟨as, a, rfl⟩
  · rfl
  · simp only [List.concat_eq_append, modifyLast_append_singleton, Function.comp_apply]

/-- No notes change nothing. -/
lemma modifyLast_addNotes_nil (ds : List Diagnostic) : modifyLast (·.addNotes []) ds = ds := by
  rcases List.eq_nil_or_concat ds with rfl | ⟨ds, d, rfl⟩
  · rfl
  · rw [List.concat_eq_append, modifyLast_append_singleton, Diagnostic.addNotes, List.append_nil]

/-- Notes after notes. -/
lemma Diagnostic.addNotes_comp_addNotes (notes others : List String) :
    (Diagnostic.addNotes · others) ∘ (Diagnostic.addNotes · notes)
      = (Diagnostic.addNotes · (notes ++ others)) :=
  funext fun d => congrArg (fun all => { d with notes := all }) (List.append_assoc _ _ _)

namespace Log

/-- What can be done with a log. -/
inductive Step where
  | record (d : Diagnostic)
  | recordError (p : Problem) (l : Location)
  | recordWarning (p : Problem) (l : Location)
  | recordNote (note : String)
  | flushWarnings
deriving Repr, DecidableEq

namespace Step

/-- The warnings that a step hands over, and the log after it. -/
def apply : Step → Log → List Diagnostic × Log
  | record d, g => ([], g.record d)
  | recordError p l, g => ([], g.recordError p l)
  | recordWarning p l, g => ([], g.recordWarning p l)
  | recordNote note, g => ([], g.recordNote note)
  | flushWarnings, g => g.flushWarnings

/-- The error that a step records. -/
def error? : Step → Option Diagnostic
  | record d => some d
  | recordError p l => some (.error p l)
  | _ => none

/-- The warning that a step records. -/
def warning? : Step → Option Diagnostic
  | recordWarning p l => some (.warning p l)
  | _ => none

/-- The note that a step records. -/
def note? : Step → Option String
  | recordNote note => some note
  | _ => none

end Step

/-- The warnings that some steps hand over, one after the other, and the log after them. -/
def run : List Step → Log → List Diagnostic × Log
  | [], g => ([], g)
  | step :: steps, g =>
    let (flushed, g) := step.apply g
    let (others, g) := run steps g
    (flushed ++ others, g)

/-- The notes that are recorded before the next error, whatever else is. -/
def leadingNotes (steps : List Step) : List String :=
  (steps.takeWhile (·.error?.isNone)).filterMap Step.note?

/-- The errors that are recorded, each with its own notes and then those that are recorded after it
and before the next error. -/
def notedErrors : List Step → List Diagnostic
  | [] => []
  | step :: steps =>
    (step.error?.map (·.addNotes (leadingNotes steps))).toList ++ notedErrors steps

/-- The steps after the last one that hands warnings over, or all if none does. -/
def sinceFlush (steps : List Step) : List Step :=
  (steps.reverse.takeWhile (· ≠ .flushWarnings)).reverse

variable {g : Log} {step : Step} {steps : List Step}

/-! ### One step -/

/-- A step adds its error to the errors, or its note to the last of them. -/
lemma errors_apply (step : Step) (g : Log) :
    (step.apply g).2.errors
      = modifyLast (·.addNotes step.note?.toList) g.errors ++ step.error?.toList := by
  have hsame : modifyLast (·.addNotes []) g.errors = g.errors := modifyLast_addNotes_nil _
  cases step with
  | recordNote => exact (List.append_nil _).symm
  | recordWarning | flushWarnings => exact ((List.append_nil _).trans hsame).symm
  | record | recordError => exact congrArg (· ++ _) hsame.symm

/-- The warnings that a step hands over and those that it leaves are those that there were, and
then its own. -/
lemma warnings_apply (step : Step) (g : Log) :
    (step.apply g).1 ++ (step.apply g).2.warnings = g.warnings ++ step.warning?.toList := by
  cases step with
  | recordWarning | flushWarnings => rfl
  | _ => exact (List.append_nil _).symm

/-- A step that records an error records no note. -/
lemma note?_eq_none {d : Diagnostic} (h : step.error? = some d) : step.note? = none := by
  cases step <;> first | rfl | cases h

/-- An error takes the notes after it away from the errors before it. -/
lemma leadingNotes_cons (step : Step) (steps : List Step) :
    leadingNotes (step :: steps)
      = if step.error?.isSome then [] else step.note?.toList ++ leadingNotes steps := by
  cases step <;> rfl

/-! ### Runs -/

/-- **Errors of a run.** Notes before the first error of the steps go to the last error of the log,
and the errors of the steps come after those of the log. -/
theorem errors_run (steps : List Step) (g : Log) :
    (run steps g).2.errors
      = modifyLast (·.addNotes (leadingNotes steps)) g.errors ++ notedErrors steps := by
  induction steps generalizing g with
  | nil =>
      exact ((List.append_nil _).trans (modifyLast_addNotes_nil g.errors)).symm
  | cons step steps ih =>
      change (run steps (step.apply g).2).2.errors = _
      rw [ih, errors_apply, leadingNotes_cons, notedErrors]
      cases herror : step.error? with
      | none =>
          -- the note of the step, if any, comes before those of the steps after it
          simp only [Option.toList_none, List.append_nil, Option.map_none, List.nil_append,
            Option.isSome_none, Bool.false_eq_true, if_false, modifyLast_modifyLast,
            Diagnostic.addNotes_comp_addNotes]
      | some d =>
          -- the error of the step is the last one now, and takes the notes after it
          simp only [note?_eq_none herror, Option.toList_none, modifyLast_addNotes_nil,
            Option.toList_some, modifyLast_append_singleton, Option.map_some, Option.isSome_some,
            if_true, List.append_assoc]

/-- **Warnings of a run.** The warnings that are handed over and those that are left are those of
the log, and then those of the steps. -/
theorem warnings_run (steps : List Step) (g : Log) :
    (run steps g).1 ++ (run steps g).2.warnings = g.warnings ++ steps.filterMap Step.warning? := by
  induction steps generalizing g with
  | nil => exact (List.append_nil _).symm
  | cons step steps ih =>
      calc (run (step :: steps) g).1 ++ (run (step :: steps) g).2.warnings
          = (step.apply g).1 ++ ((run steps (step.apply g).2).1
              ++ (run steps (step.apply g).2).2.warnings) := List.append_assoc _ _ _
        _ = g.warnings ++ (step.warning?.toList ++ steps.filterMap Step.warning?) := by
          rw [ih, ← List.append_assoc, warnings_apply, List.append_assoc]
        _ = g.warnings ++ (step :: steps).filterMap Step.warning? := by
          cases step <;> rfl

/-- Steps after steps. -/
lemma run_append (steps others : List Step) (g : Log) :
    (run (steps ++ others) g).2 = (run others (run steps g).2).2 := by
  induction steps generalizing g with
  | nil => rfl
  | cons step steps ih => exact ih _

lemma sinceFlush_append_singleton (steps : List Step) (step : Step) :
    sinceFlush (steps ++ [step])
      = if step = .flushWarnings then [] else sinceFlush steps ++ [step] := by
  rw [sinceFlush, List.reverse_concat, List.takeWhile_cons]
  by_cases hflush : step = .flushWarnings
  · simp [hflush]
  · simp [hflush, sinceFlush]

/-- A step hands over all warnings or leaves them where they are. -/
lemma pending_apply (step : Step) (g : Log) :
    (step.apply g).2.warnings
      = if step = .flushWarnings then [] else g.warnings ++ step.warning?.toList := by
  cases step with
  | recordWarning | flushWarnings => rfl
  | _ => exact (List.append_nil _).symm

/-- **Pending warnings.** Beginning with an empty log, a run leaves the warnings that were recorded
since warnings were handed over. The induction is from the end of the steps, where the last step
either hands all over or adds to those that are left. -/
theorem pending_run (steps : List Step) :
    (run steps empty).2.warnings = (sinceFlush steps).filterMap Step.warning? := by
  induction steps using List.reverseRecOn with
  | nil => rfl
  | append_singleton steps step ih =>
      have hlast : (run (steps ++ [step]) empty).2 = (step.apply (run steps empty).2).2 :=
        run_append steps [step] empty
      rw [hlast, pending_apply, sinceFlush_append_singleton]
      split_ifs with hflush
      · rfl
      · rw [ih, List.filterMap_append]
        cases step <;> rfl

lemma length_notedErrors (steps : List Step) :
    (notedErrors steps).length = steps.countP (·.error?.isSome) := by
  induction steps with
  | nil => rfl
  | cons step steps ih => cases step <;> simp [notedErrors, Step.error?, ih]

/-- **Logs after any steps.** Beginning with an empty log, the errors are those that were recorded,
in order, each with its own notes and then those that were recorded after it and before the next
error. The warnings that were handed over and those that are left are those that were recorded, in
order. The errors are counted as they were recorded, and there are some exactly if the count is
positive. Whenever warnings are handed over, these are just those that were recorded since the last
time, and none is left. No error depends on where warnings are handed over. -/
theorem log_after_steps :
    (∀ steps : List Step, (run steps empty).2.errors = notedErrors steps ∧
      (run steps empty).1 ++ (run steps empty).2.warnings = steps.filterMap Step.warning? ∧
      (run steps empty).2.errorCount = steps.countP (·.error?.isSome) ∧
      ((run steps empty).2.hasErrors ↔ 0 < (run steps empty).2.errorCount) ∧
      (run steps empty).2.flushWarnings
        = ((sinceFlush steps).filterMap Step.warning?, ⟨notedErrors steps, []⟩)) ∧
    ∀ before after : List Step,
      (run (before ++ .flushWarnings :: after) empty).2.errors
        = (run (before ++ after) empty).2.errors := by
  refine ⟨fun steps => ?_, fun before after => ?_⟩
  · have herrors : (run steps empty).2.errors = notedErrors steps := errors_run steps empty
    refine ⟨herrors, warnings_run steps empty, ?_, ?_, ?_⟩
    · rw [errorCount, herrors, length_notedErrors]
    · simp [hasErrors, errorCount, List.length_pos_iff]
    · rw [flushWarnings, pending_run, herrors]
  · rw [run_append, run_append, errors_run after]
    exact errors_run after _

/-- An error with a note of its own. -/
def ownNoted : Diagnostic := ⟨.emptyBlock, .start, .error, ["own"]⟩

/-- Two errors and two warnings, the first of which is handed over before the second is recorded. -/
def flushedOnce : List Step :=
  [.recordNote "dropped", .record ownNoted, .recordWarning .unreachableCode ⟨1, 0⟩, .flushWarnings,
    .recordNote "late", .recordError .invalidType .start, .recordWarning .unreachableCode ⟨2, 0⟩]

/-- The note after the first warning goes to the first error, that before it to none, and the second
warning is handed over alone. -/
theorem log_after_flushedOnce :
    (run flushedOnce empty).1 = [.warning .unreachableCode ⟨1, 0⟩] ∧
      (run flushedOnce empty).2.flushWarnings
        = ([.warning .unreachableCode ⟨2, 0⟩],
          ⟨[ownNoted.addNote "late", .error .invalidType .start], []⟩) :=
  ⟨rfl, (log_after_steps.1 flushedOnce).2.2.2.2⟩

end Log

end Fern
