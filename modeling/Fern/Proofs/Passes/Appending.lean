import Fern.Proofs.Parsing.Relocation
import Fern.Proofs.Typing.Callable
import Fern.Token.Stream

/-!
The passes add to what was found before, and do not look at it.

* `tokenize_eq_append`, `typeCheck_eq_append`: what a pass gives does not depend on what was found
  before, and what it finds comes after that.
* `passes_append_findings`: **the passes only append what they find**, and each note of the checker
  is on the error of its own check.
-/

namespace Fern

open Typing Parsing

/-- What was found before the reading of a text is found before what is found in it. -/
lemma tokenize_eq_append (source : String) (log : Log) :
    tokenize source log = ((tokenize source .empty).1, log ++ (tokenize source .empty).2) := by
  unfold tokenize
  split
  · exact congrArg (Prod.mk _) (Log.append_empty log).symm
  · exact congrArg (Prod.mk _) (Log.record_eq_append _ _)

/-- What was found before the check of a program is found before what is found in it, whether it
comes to an end or fails. -/
lemma typeCheck_eq_append (p : Program) (log : Log) :
    typeCheck p log = (typeCheck p .empty).map fun r => (r.1, log ++ r.2) := by
  rcases typeCheck_relocate p with ⟨i, hfail⟩ | ⟨types, found, -, hdone⟩
  · have hsame := hfail fun l => l
    rw [p.relocate_same] at hsame
    rw [hsame, hsame]
    rfl
  · have hsame := hdone fun l => l
    rw [p.relocate_same] at hsame
    rw [hsame, hsame]
    rfl

/-- **Passes only append what they find.** Whatever was found before, a pass gives the same result,
and what it finds without that comes after it.
What the checker finds are the errors about redeclared functions, which have no note, and those of
the checks in the bodies, each with the note of its own check if this has one. No warning has a
note. -/
theorem passes_append_findings :
    (∀ (source : String) (log : Log),
      tokenize source log = ((tokenize source .empty).1, log ++ (tokenize source .empty).2)) ∧
    (∀ (tokens : List Token) (log : Log),
      parse tokens log = ((parse tokens .empty).1, log ++ (parse tokens .empty).2)) ∧
    (∀ (p : Program) (log : Log),
      typeCheck p log = (typeCheck p .empty).map fun r => (r.1, log ++ r.2)) ∧
    ∀ (p : Program) (log out : Log) (types : Array Ty), typeCheck p log = .ok (types, out) →
      ∃ found : Log, out = log ++ found ∧
        (∀ d, d ∈ found.errors ↔ d ∈ (redeclared p.prototypes).map redeclaration ∨
          ∃ n u r c, p.Judges log n u r ∧ Complains u r c ∧
            d = ⟨c.problem, c.location, .error, c.note.toList⟩) ∧
        ∀ w ∈ found.warnings, w.notes = [] := by
  refine ⟨tokenize_eq_append, parse_eq_append, typeCheck_eq_append, fun p log out types h => ?_⟩
  obtain ⟨found, rfl, hwarnings, -⟩ := exists_found_of_typeCheck h
  obtain ⟨errors, herrors, -, hfound⟩ := Program.exists_found_typeCheck h
  obtain rfl : found.errors = errors := List.append_cancel_left herrors
  exact ⟨found, rfl, hfound, hwarnings⟩

/-- The program `func f() -> int { return true }`. -/
def misreturnProgram : Program where
  arena := ((Arena.empty.add (.boolean true) ⟨0, 25⟩).add (.jump .returnWord (some 0)) ⟨0, 18⟩).add
    (.block [1]) ⟨0, 16⟩
  functions := [⟨⟨"f", [], .int, ⟨0, 5⟩⟩, 2⟩]

/-- An error with a note, and a warning. -/
def earlierLog : Log :=
  ⟨[(Diagnostic.error (.unknownVariable "x") ⟨0, 0⟩).addNote "earlier"],
    [.warning .unreachableCode ⟨0, 1⟩]⟩

/-- The error about the returned value. -/
def misreturn : Diagnostic :=
  (Diagnostic.error .returnTypeMismatch ⟨0, 18⟩).addNote "function returns int, value type is bool"

/-- The note on the returned value goes to the error about it, and not to that before it. -/
theorem misreturn_after_earlierLog :
    ∃ types, typeCheck misreturnProgram .empty = .ok (types, ⟨[misreturn], []⟩) ∧
      typeCheck misreturnProgram earlierLog = .ok (types, earlierLog ++ ⟨[misreturn], []⟩) ∧
      ∃ n u r c, misreturnProgram.Judges earlierLog n u r ∧ Complains u r c ∧
        misreturn = ⟨c.problem, c.location, .error, c.note.toList⟩ := by
  obtain ⟨-, -, hcheck, hfound⟩ := passes_append_findings
  have hempty : typeCheck misreturnProgram .empty
      = .ok (#[.bool, .bool, .bool], ⟨[misreturn], []⟩) := rfl
  have hrun := hcheck misreturnProgram earlierLog
  rw [hempty] at hrun
  obtain ⟨found, hout, herrors, -⟩ := hfound _ _ _ _ hrun
  obtain rfl := Log.append_left_cancel hout
  refine ⟨_, hempty, hrun, ?_⟩
  rcases (herrors misreturn).mp (List.mem_singleton_self _) with hd | hd
  · cases hd
  · exact hd

end Fern
