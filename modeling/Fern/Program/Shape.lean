import Fern.Token
import Fern.Ty

/-!
The forms that an expression can take. Every construct of a function body is an expression.

* `Shape`: the thirteen forms, over any type of subexpressions.
* `Shape.map`: the same form with other subexpressions.
* `Shape.children`: the subexpressions, in the order in which they are written.
-/

namespace Fern

/-- An expression whose subexpressions are of type `ε`. -/
inductive Shape (ε : Type) where
  /-- An operator between two operands; assignment is one. -/
  | binary (operator : Token.Kind) (left right : ε)
  /-- An operator in front of its operand. -/
  | unary (operator : Token.Kind) (operand : ε)
  /-- A choice between two blocks, the second of which may be left out. -/
  | cond (condition thenBlock : ε) (elseBlock : Option ε)
  /-- A new name for a value, with the stated type, if any. -/
  | binding (name : String) (stated : Option Ty) (value : ε)
  /-- Statements in a scope of their own. -/
  | block (statements : List ε)
  /-- A `return`, with the returned value if any, a `break` or a `continue`. -/
  | jump (operator : Token.Kind) (value : Option ε)
  /-- A function applied to arguments. -/
  | call (callee : String) (arguments : List ε)
  /-- The value of a name. -/
  | var (name : String)
  /-- An element of a text or of what a reference refers to. -/
  | subscript (operand index : ε)
  /-- A truth value. -/
  | boolean (value : Bool)
  /-- A number, as it is written. -/
  | number (value : String) (isFloat : Bool)
  /-- A string literal, as it is written between its quotes. -/
  | string (value : String)
  /-- A character literal, as it is written between its quotes. -/
  | char (value : String)
deriving Repr, DecidableEq

namespace Shape

variable {ε δ : Type}

/-- The same form with `f` applied to the subexpressions. -/
def map (f : ε → δ) : Shape ε → Shape δ
  | binary operator left right => binary operator (f left) (f right)
  | unary operator operand => unary operator (f operand)
  | cond condition thenBlock elseBlock => cond (f condition) (f thenBlock) (elseBlock.map f)
  | binding name stated value => binding name stated (f value)
  | block statements => block (statements.map f)
  | jump operator value => jump operator (value.map f)
  | call callee arguments => call callee (arguments.map f)
  | var name => var name
  | subscript operand index => subscript (f operand) (f index)
  | boolean value => boolean value
  | number value isFloat => number value isFloat
  | string value => string value
  | char value => char value

/-- The subexpressions, from left to right. -/
def children : Shape ε → List ε
  | binary _ left right => [left, right]
  | unary _ operand => [operand]
  | cond condition thenBlock elseBlock => condition :: thenBlock :: elseBlock.toList
  | binding _ _ value => [value]
  | block statements => statements
  | jump _ value => value.toList
  | call _ arguments => arguments
  | subscript operand index => [operand, index]
  | var _ | boolean _ | number _ _ | string _ | char _ => []

/-- Whether the form is a block. -/
def isBlock : Shape ε → Bool
  | block _ => true
  | _ => false

/-- The subexpressions of the mapped form are the mapped subexpressions. -/
theorem children_map (f : ε → δ) (s : Shape ε) : (s.map f).children = s.children.map f := by
  cases s with
  | cond _ _ e => cases e <;> rfl
  | jump _ v => cases v <;> rfl
  | _ => rfl

theorem map_map {γ : Type} (g : δ → γ) (f : ε → δ) (s : Shape ε) :
    (s.map f).map g = s.map (g ∘ f) := by
  cases s <;> simp [map]

/-- The form depends on the subexpressions only through what `f` makes of them. -/
theorem map_congr {f g : ε → δ} {s : Shape ε} (h : ∀ e ∈ s.children, f e = g e) :
    s.map f = s.map g := by
  cases s with
  | cond _ _ e => cases e <;> simp_all [map, children]
  | jump _ v => cases v <;> simp_all [map, children]
  | _ => simp_all [map, children]

end Shape

end Fern
