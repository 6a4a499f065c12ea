import Fern.Diagnostic

/-!
Failures of another library as errors at a location.

* `Diagnostic.locate`: the outcome of a request to another library, where a failure becomes an error
  in the words of that library.
* `BuilderFault`: the reasons for which an instruction builder refuses an instruction, in its words.
-/

namespace Fern

/-- Passes a value on, and turns a failure with a wording into an error at `l`. -/
def Diagnostic.locate {ε α : Type} (wording : ε → String) (l : Location) :
    Except ε α → Except Diagnostic α :=
  Except.mapError fun fault => .error (.backend (wording fault)) l

/-- Why the instruction builder refuses an instruction. -/
inductive BuilderFault where
  | unsetPosition
  | alignment
  | extractOutOfRange
  | bitwidth
  | pointeeTypeMismatch
  | valueTypeMismatch
  | ordering
  | elementPointee
  | elementIndex
deriving Repr, DecidableEq

namespace BuilderFault

/-- The wording of a refusal. -/
def message : BuilderFault → String
  | unsetPosition => "Builder position is not set"
  | alignment => "Alignment error"
  | extractOutOfRange => "Aggregate extract index out of range"
  | bitwidth => "Bitwidth of a value is incorrect"
  | pointeeTypeMismatch => "Pointee type does not match the value's type"
  | valueTypeMismatch => "Values do not have the same type"
  | ordering => "Ordering error or mismatch"
  | elementPointee => "GEP pointee is not a struct"
  | elementIndex => "GEP index out of range"

/-- Passes a value on, and turns a refusal into an error at `l`. -/
def locate {α : Type} (l : Location) : Except BuilderFault α → Except Diagnostic α :=
  Diagnostic.locate message l

end BuilderFault

end Fern
