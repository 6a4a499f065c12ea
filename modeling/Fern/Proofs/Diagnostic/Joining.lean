import Mathlib.Tactic
import Fern.Diagnostic.Log
import Fern.Token

/-!
What is found by one pass after another, and the same tokens and findings at other places.

* `g ++ h` for records: what was found first, then what was found later.
* `Token.relocate`: the same token at another place.
* `Diagnostic.relocate`, `Log.relocate`: the same findings at other places.
-/

namespace Fern

/-- The token at another place. -/
def Token.relocate (g : Location → Location) (t : Token) : Token :=
  { t with location := g t.location }

@[simp] lemma Token.kind_relocate (g : Location → Location) (t : Token) :
    (t.relocate g).kind = t.kind := rfl

@[simp] lemma Token.lexeme_relocate (g : Location → Location) (t : Token) :
    (t.relocate g).lexeme = t.lexeme := rfl

/-- The same finding at another place. -/
def Diagnostic.relocate (g : Location → Location) (d : Diagnostic) : Diagnostic :=
  { d with location := g d.location }

namespace Log

/-- What was found first, then what was found later. -/
instance : Append Log := ⟨fun g h => ⟨g.errors ++ h.errors, g.warnings ++ h.warnings⟩⟩

variable {g h k : Log}

@[simp] lemma append_empty (g : Log) : g ++ empty = g := by
  obtain ⟨errors, warnings⟩ := g
  exact congrArg₂ mk (List.append_nil _) (List.append_nil _)

lemma append_assoc (g h k : Log) : g ++ h ++ k = g ++ (h ++ k) :=
  congrArg₂ mk (List.append_assoc _ _ _) (List.append_assoc _ _ _)

lemma append_left_cancel (heq : g ++ h = g ++ k) : h = k := by
  obtain ⟨herrors, hwarnings⟩ := mk.inj heq
  obtain ⟨errors, warnings⟩ := h
  exact congrArg₂ mk (List.append_cancel_left herrors) (List.append_cancel_left hwarnings)

/-- A finding that is recorded comes after those that were found before. -/
lemma record_eq_append (g : Log) (d : Diagnostic) : g.record d = g ++ empty.record d :=
  congrArg (mk _) (List.append_nil _).symm

/-- The same findings at other places. -/
def relocate (f : Location → Location) (g : Log) : Log :=
  ⟨g.errors.map (Diagnostic.relocate f), g.warnings.map (Diagnostic.relocate f)⟩

lemma relocate_same (g : Log) : g.relocate (fun l => l) = g :=
  congrArg₂ mk (List.map_id' _) (List.map_id' _)

end Log

end Fern
