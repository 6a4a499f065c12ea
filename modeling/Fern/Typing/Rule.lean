import Fern.Diagnostic.Log
import Fern.Token
import Fern.Ty

/-!
The rules for types, each on the types of the parts alone.

* `Complaint`: a problem with its place and a note on the types involved.
* `Verdict`: the type of an expression, and what is wrong with it, if anything.
* `ofBinary`, `ofUnary`, `ofReturn`, `ofSubscript`: the verdict on each form with operands.
* `annotationComplaint`, `conditionComplaint`, `armsComplaint`, `argumentComplaint`: the conditions
  that do not bear on the type.

What has the invalid type was complained of where it arose, so no rule complains of it again, except
that an unknown binary operator is always reported.
-/

namespace Fern.Typing

/-- A problem, its place, and a note on the types involved. -/
structure Complaint where
  problem : Problem
  location : Location
  note : Option String := none
deriving Repr, DecidableEq

/-- Records a complaint as an error and its note with it. -/
def Complaint.record (c : Complaint) (g : Log) : Log :=
  let g := g.recordError c.problem c.location
  match c.note with
  | none => g
  | some note => g.recordNote note

/-- The type of an expression, and what is wrong with it, if anything. -/
structure Verdict where
  type : Ty
  complaint : Option Complaint := none
deriving Repr, DecidableEq

/-- A type that nothing is wrong with. -/
def Verdict.accept (t : Ty) : Verdict := ⟨t, none⟩

/-- No type, because something is wrong. -/
def Verdict.refuse (p : Problem) (l : Location) (note : Option String) : Verdict :=
  ⟨.invalid, some ⟨p, l, note⟩⟩

/-- A complaint, unless its condition fails. -/
def complainIf (b : Bool) (p : Problem) (l : Location) (note : Option String) : Option Complaint :=
  if b then some ⟨p, l, note⟩ else none

/-- The operators that compare. -/
def isComparison : Token.Kind → Bool
  | .equalEqual | .bangEqual | .less | .lessEqual | .greater | .greaterEqual => true
  | _ => false

/-- The operators that compute numbers. -/
def isArithmetic : Token.Kind → Bool
  | .plus | .minus | .star | .slash => true
  | _ => false

/-- The note that gives the types of two operands. -/
def operandsNote (left right : Ty) : String :=
  "LHS is " ++ left.text ++ ", RHS is " ++ right.text

/-- An assignment has the type of its target, which the value has to have too. The target is called
`target`. -/
def ofAssignment (target : String) (left right : Ty) (l : Location) : Verdict :=
  ⟨left, complainIf (!left.isInvalid && !right.isInvalid && left ≠ right) .reassignTypeMismatch l
    (some ("variable `" ++ target ++ "` expected type " ++ left.text ++ ", got " ++ right.text))⟩

/-- A comparison is a truth value; its operands have to be of one type. -/
def ofComparison (left right : Ty) (l : Location) : Verdict :=
  ⟨.bool, complainIf (!left.isInvalid && !right.isInvalid && left ≠ right) .comparisonTypeMismatch l
    (some (operandsNote left right))⟩

/-- Arithmetic is for two numbers of one type and gives that type; only a quotient always has a
fraction. -/
def ofArithmetic (operator : Token.Kind) (left right : Ty) (l : Location) : Verdict :=
  if left.isInvalid || right.isInvalid then .accept .invalid
  else
    ⟨if operator = .slash then .float else left,
      complainIf (!left.isNumeric || left ≠ right) .arithmeticTypeMismatch l
        (some (operandsNote left right))⟩

/-- An operator between two operands, the left of which is called `target`. -/
def ofBinary (operator : Token.Kind) (target : String) (left right : Ty) (l : Location) : Verdict :=
  if operator = .equal ∨ operator = .colonEqual then ofAssignment target left right l
  else if isComparison operator then ofComparison left right l
  else if isArithmetic operator then ofArithmetic operator left right l
  else .refuse (.unknownBinaryOperator operator.name) l none

/-- An operator in front of its operand: a sign before a number, a negation before a truth value. -/
def ofUnary (operator : Token.Kind) (operand : Ty) (l : Location) : Verdict :=
  if operand.isInvalid then .accept .invalid
  else
    match operator with
    | .minus =>
      if operand.isNumeric then .accept operand else .refuse .expectedNumericOperand l none
    | .bang => if operand = .bool then .accept .bool else .refuse .expectedBoolOperand l none
    | _ => .refuse (.unknownUnaryOperator operator.name) l none

/-- A `return` has the type of its value, which has to be the declared one. -/
def ofReturn (declared : Option Ty) (value : Ty) (l : Location) : Verdict :=
  match declared with
  | none => .refuse .returnOutsideFunction l none
  | some type =>
    ⟨value, complainIf (!value.isInvalid && value ≠ type) .returnTypeMismatch l
      (some ("function returns " ++ type.text ++ ", value type is " ++ value.text))⟩

/-- An element of what can be indexed, by a whole number that stands at `indexLocation`. -/
def ofSubscript (operand index : Ty) (l indexLocation : Location) : Verdict :=
  if operand.isInvalid || index.isInvalid then .accept .invalid
  else if !operand.isIndexable then
    .refuse .notIndexable l (some ("operand type is " ++ operand.text))
  else if index ≠ .int then .refuse .nonIntegerIndex indexLocation none
  else .accept (operand.dereference.getD .invalid)

/-- A stated type has to be that of the value. -/
def annotationComplaint (name : String) (stated : Option Ty) (value : Ty) (l : Location) :
    Option Complaint :=
  match stated with
  | none => none
  | some type =>
    complainIf (!value.isInvalid && type ≠ value) .annotationMismatch l
      (some ("variable `" ++ name ++ "` annotated as " ++ type.text ++ ", value is " ++ value.text))

/-- A condition has to be a truth value. -/
def conditionComplaint (condition : Ty) (l : Location) : Option Complaint :=
  complainIf (!condition.isInvalid && condition ≠ .bool) .nonBoolCondition l
    (some ("condition type is " ++ condition.text))

/-- The two blocks of a choice have to be of one type. -/
def armsComplaint (thenType elseType : Ty) (l : Location) : Option Complaint :=
  complainIf (!thenType.isInvalid && !elseType.isInvalid && thenType ≠ elseType) .ifBranchMismatch l
    (some ("then block is " ++ thenType.text ++ ", else block is " ++ elseType.text))

/-- An argument has to be of the type of its parameter. -/
def argumentComplaint (callee : String) (parameter argument : Ty) (l : Location) :
    Option Complaint :=
  complainIf (!argument.isInvalid && argument ≠ parameter) .argumentTypeMismatch l
    (some ("parameter of `" ++ callee ++ "` expects " ++ parameter.text ++ ", got " ++
      argument.text))

end Fern.Typing
