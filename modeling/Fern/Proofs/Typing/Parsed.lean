import Mathlib.Tactic
import Fern.Proofs.Parsing.Layout
import Fern.Proofs.Typing.Acceptance

/-!
Type checking of parsed programs.

* `statedTypesValid_of_parse`: no type that can be written stands for a failure.
* `typeCheck_accepts_iff_wellTyped`: **type checking accepts exactly the well-typed programs**.
-/

namespace Fern

open Typing

namespace Parsing

variable {ts ts' : List Token} {t : Ty} {q : Prototype}

lemma AreParameters.isInvalid {ps : List Parameter} (h : AreParameters ts ps ts') :
    ∀ a ∈ ps, a.type.isInvalid = false := by
  induction h with
  | last _ _ htype => simpa using htype.isInvalid
  | more _ _ htype _ _ ih => simpa using ⟨htype.isInvalid, ih⟩

/-- The types of a head that can be written do not stand for a failure. -/
lemma IsPrototype.isInvalid (h : IsPrototype ts q ts') :
    q.returnType.isInvalid = false ∧ ∀ a ∈ q.parameters, a.type.isInvalid = false := by
  cases h with
  | intro _ _ _ hparameters _ hreturn =>
      refine ⟨?_, ?_⟩
      · cases hreturn with
        | absent => rfl
        | stated _ htype => exact htype.isInvalid
      · cases hparameters with
        | empty => simp
        | some h => exact h.isInvalid

/-- The prototypes of a derivation are heads that can be written. -/
lemma IsProgram.isInvalid {cs : List Construct} (h : IsProgram ts cs) :
    (∀ q ∈ cs.filterMap Construct.declaration?, ValidPrototype q) ∧
      ∀ f ∈ cs.filterMap Construct.function?, ValidPrototype f.1 := by
  induction h with
  | empty => simp
  | function hprototype _ _ ih =>
      obtain ⟨hdeclarations, hfunctions⟩ := ih
      refine ⟨hdeclarations, fun f hf => ?_⟩
      rcases List.mem_cons.mp hf with rfl | hf
      · exact hprototype.isInvalid
      · exact hfunctions f hf
  | declaration _ hprototype _ _ ih =>
      obtain ⟨hdeclarations, hfunctions⟩ := ih
      refine ⟨fun q hq => ?_, hfunctions⟩
      rcases List.mem_cons.mp hq with rfl | hq
      · exact hprototype.isInvalid
      · exact hdeclarations q hq

end Parsing

open Parsing

/-- No type that can be written stands for a failure. -/
lemma statedTypesValid_of_parse {tokens : List Token} {log : Log} {p : Program}
    (h : (parse tokens log).1 = some p) : p.StatedTypesValid := by
  obtain ⟨cs, hcs, hdeclarations, hfunctions⟩ := isProgram_of_parse h
  obtain ⟨hdeclarations', hfunctions'⟩ := hcs.isInvalid
  intro q hq
  rcases List.mem_append.mp hq with hq | hq
  · exact hdeclarations' q (hdeclarations ▸ hq)
  · obtain ⟨f, hf, rfl⟩ := List.mem_map.mp hq
    refine hfunctions' (f.prototype, p.body f) ?_
    rw [← hfunctions]
    exact List.mem_map.mpr ⟨f, hf, rfl⟩

/-- **Type checking accepts exactly the well-typed programs**, for all programs whose stated types
do not stand for a failure, hence for all that have been parsed. -/
theorem typeCheck_accepts_iff_wellTyped :
    (∀ (p : Program) (log : Log), p.StatedTypesValid → (p.Accepted log ↔ p.WellTyped)) ∧
      ∀ (tokens : List Token) (log log' : Log) (p : Program), (parse tokens log).1 = some p →
        (p.Accepted log' ↔ p.WellTyped) :=
  ⟨fun _ log hvalid => accepted_iff_wellTyped hvalid log,
    fun _ _ log' _ h => accepted_iff_wellTyped (statedTypesValid_of_parse h) log'⟩

/-- The program `func f() -> int { 1 }`. -/
def constantFunction : Program where
  arena := (Arena.empty.add (.number "1" false) ⟨0, 18⟩).add (.block [0]) ⟨0, 16⟩
  functions := [⟨⟨"f", [], .int, ⟨0, 5⟩⟩, 1⟩]

/-- A function that returns a number where a number is declared is accepted, hence well typed. -/
theorem constantFunction_wellTyped :
    constantFunction.StatedTypesValid ∧ constantFunction.Accepted {} ∧
      constantFunction.WellTyped := by
  have hvalid : constantFunction.StatedTypesValid := by
    unfold Program.StatedTypesValid
    decide
  have haccepted : constantFunction.Accepted {} := ⟨_, _, rfl, rfl⟩
  exact ⟨hvalid, haccepted, (typeCheck_accepts_iff_wellTyped.1 _ _ hvalid).mp haccepted⟩

end Fern
