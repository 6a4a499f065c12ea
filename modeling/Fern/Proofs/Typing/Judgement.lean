import Mathlib.Tactic
import Fern.Typing.Checker

/-!
The typing judgement, apart from the checker.

* `BinaryRule`, `UnaryRule`: the types that operators take and give.
* `HasType`: in given scopes an expression has a type and leaves scopes behind, under the signatures
  of the callable functions and the declared return type of the function in hand. A binding inside
  an operand, a condition or an argument is seen by what comes after it; only a block takes its own
  bindings away with it.
* `StatementsHaveType`, `ArgumentsHaveTypes`: the same for the statements of a block and for the
  arguments of a call, from left to right.
* `Program.WellTyped`: no function name is used twice, and every body has some type in the scope of
  its parameters, with the declarations, the functions before it and itself callable.
-/

namespace Fern

namespace Typing

/-- The types of numbers. -/
def IsNumber (t : Ty) : Prop := t = .int ∨ t = .float

/-- Both operands of an operator are of one type, and this is the type of the result: the type of
the target for an assignment, a truth value for a comparison, and that of the operands for
arithmetic, which is for numbers, except that a quotient always has a fraction. -/
inductive BinaryRule (operator : Token.Kind) (t : Ty) : Ty → Prop
  | assignment (h : operator = .equal ∨ operator = .colonEqual) : BinaryRule operator t t
  | comparison (h : isComparison operator) : BinaryRule operator t .bool
  | arithmetic (h : isArithmetic operator) (number : IsNumber t) :
      BinaryRule operator t (if operator = .slash then .float else t)

/-- An operator in front of its operand keeps the type: a sign that of a number, a negation that of
a truth value. -/
inductive UnaryRule : Token.Kind → Ty → Prop
  | minus {t : Ty} (number : IsNumber t) : UnaryRule .minus t
  | bang : UnaryRule .bang .bool

section Judgement

variable (callable : String → Option Signature) (declared : Ty)

mutual

/-- In the scopes `Γ` the expression `e` has the type `t` and leaves the scopes `Γ'` behind if
`HasType callable declared Γ e t Γ'`. There is no rule for `break` and `continue`. -/
inductive HasType : Scopes Ty → Tree → Ty → Scopes Ty → Prop
  | number {Γ id l value isFloat} :
      HasType Γ (.node id l (.number value isFloat)) (if isFloat then .float else .int) Γ
  | boolean {Γ id l value} : HasType Γ (.node id l (.boolean value)) .bool Γ
  | string {Γ id l value} : HasType Γ (.node id l (.string value)) .str Γ
  | char {Γ id l value} : HasType Γ (.node id l (.char value)) .char Γ
  | var {Γ id l name t} (bound : Γ.lookup name = some t) :
      HasType Γ (.node id l (.var name)) t Γ
  | binding {Γ Γ' id l name stated value t} (hvalue : HasType Γ value t Γ')
      (annotated : ∀ u ∈ stated, u = t) (fresh : Γ'.localLookup name = none) :
      HasType Γ (.node id l (.binding name stated value)) t (Γ'.bind name t)
  | block {Γ Γ' id l statements t} (inner : StatementsHaveType Γ.push statements t Γ') :
      HasType Γ (.node id l (.block statements)) t Γ
  | cond {Γ Γ₁ Γ₂ id l condition thenBlock t} (hcond : HasType Γ condition .bool Γ₁)
      (hthen : HasType Γ₁ thenBlock t Γ₂) :
      HasType Γ (.node id l (.cond condition thenBlock none)) t Γ₂
  | condElse {Γ Γ₁ Γ₂ Γ₃ id l condition thenBlock elseBlock t}
      (hcond : HasType Γ condition .bool Γ₁) (hthen : HasType Γ₁ thenBlock t Γ₂)
      (helse : HasType Γ₂ elseBlock t Γ₃) :
      HasType Γ (.node id l (.cond condition thenBlock (some elseBlock))) t Γ₃
  | binary {Γ Γ₁ Γ₂ id l operator left right t u} (hleft : HasType Γ left t Γ₁)
      (hright : HasType Γ₁ right t Γ₂) (rule : BinaryRule operator t u) :
      HasType Γ (.node id l (.binary operator left right)) u Γ₂
  | unary {Γ Γ' id l operator operand t} (hoperand : HasType Γ operand t Γ')
      (rule : UnaryRule operator t) : HasType Γ (.node id l (.unary operator operand)) t Γ'
  | bareReturn {Γ id l} (void : declared = .void) :
      HasType Γ (.node id l (.jump .returnWord none)) .void Γ
  | valueReturn {Γ Γ' id l value} (hvalue : HasType Γ value declared Γ') :
      HasType Γ (.node id l (.jump .returnWord (some value))) declared Γ'
  | call {Γ Γ' id l callee arguments signature} (known : callable callee = some signature)
      (harguments : ArgumentsHaveTypes Γ arguments signature.parameters Γ') :
      HasType Γ (.node id l (.call callee arguments)) signature.returnType Γ'
  | subscript {Γ Γ₁ Γ₂ id l operand index t u} (hoperand : HasType Γ operand t Γ₁)
      (hindex : HasType Γ₁ index .int Γ₂) (element : t.dereference = some u) :
      HasType Γ (.node id l (.subscript operand index)) u Γ₂

/-- Statements have the type of the last of them, and none at all have the type `void`. -/
inductive StatementsHaveType : Scopes Ty → List Tree → Ty → Scopes Ty → Prop
  | empty {Γ} : StatementsHaveType Γ [] .void Γ
  | last {Γ Γ' statement t} (hlast : HasType Γ statement t Γ') :
      StatementsHaveType Γ [statement] t Γ'
  | cons {Γ Γ₁ Γ₂ statement next others t u} (hfirst : HasType Γ statement t Γ₁)
      (hothers : StatementsHaveType Γ₁ (next :: others) u Γ₂) :
      StatementsHaveType Γ (statement :: next :: others) u Γ₂

/-- There are as many arguments as parameters, and each has the type of its parameter. -/
inductive ArgumentsHaveTypes : Scopes Ty → List Tree → List Ty → Scopes Ty → Prop
  | nil {Γ} : ArgumentsHaveTypes Γ [] [] Γ
  | cons {Γ Γ₁ Γ₂ argument arguments t parameters} (hfirst : HasType Γ argument t Γ₁)
      (hothers : ArgumentsHaveTypes Γ₁ arguments parameters Γ₂) :
      ArgumentsHaveTypes Γ (argument :: arguments) (t :: parameters) Γ₂

end

end Judgement

/-! ### Programs -/

/-- What can be called by name when the functions `visible` are known. -/
def callableAmong (visible : List Prototype) (name : String) : Option Signature :=
  (visible.find? (·.name = name)).map .ofPrototype

/-- The scope of the parameters of a function. -/
def parameterScope (parameters : List Parameter) : Bindings Ty :=
  parameters.foldl (fun bs p => bs.set p.name p.type) []

/-- A body has a type in the scope of the parameters, when the functions `visible` are known. -/
def BodyTyped (visible : List Prototype) (p : Prototype) (body : Tree) : Prop :=
  ∃ t Γ, HasType (callableAmong visible) p.returnType [parameterScope p.parameters] body t Γ

end Typing

open Typing

namespace Program

/-- The prototypes of a program in the order in which they are registered. -/
def prototypes (p : Program) : List Prototype :=
  p.declarations ++ p.functions.map Function.prototype

/-- A program is well typed if its function names are distinct and each body has a type. A body can
call the declared functions, those before it, and its own. -/
structure WellTyped (p : Program) : Prop where
  distinct : (p.prototypes.map Prototype.name).Nodup
  bodies : ∀ earlier f later, p.functions = earlier ++ f :: later →
    BodyTyped (p.declarations ++ (earlier ++ [f]).map Function.prototype) f.prototype (p.body f)

/-- No parameter and no result is stated to be of the type of a failure. -/
def StatedTypesValid (p : Program) : Prop :=
  ∀ q ∈ p.prototypes, q.returnType.isInvalid = false ∧ ∀ a ∈ q.parameters, a.type.isInvalid = false

/-- Checking a program records no error. -/
def Accepted (p : Program) (log : Log) : Prop :=
  ∃ types log', typeCheck p log = .ok (types, log') ∧ log'.errors = log.errors

end Program

end Fern
