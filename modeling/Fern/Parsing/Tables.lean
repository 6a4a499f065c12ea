import Fern.Token

/-!
The rules by which tokens begin and join expressions.

* `Power`: how strongly an operator holds its operands, and `Power.level`, its rank.
* `PrimaryRule`: the ways in which an expression can begin.
* `OperatorRule`: the ways in which an operator joins its operands.
* `Tables`: the rule for each kind of token; `Tables.standard` are those of the language.
-/

namespace Fern.Parsing

/-- How strongly an operator holds its operands. -/
inductive Power where
  | default
  | assignment
  | equality
  | relational
  | additive
  | multiplicative
deriving Repr, DecidableEq

namespace Power

/-- The rank of a power. What is no operator ranks below every operator. -/
def level : Power → Int
  | default => -1
  | assignment => 1
  | equality => 2
  | relational => 3
  | additive => 4
  | multiplicative => 5

/-- The name of a power. -/
def name : Power → String
  | default => "Default"
  | assignment => "Assignment"
  | equality => "Equality"
  | relational => "Relational"
  | additive => "Additive"
  | multiplicative => "Multiplicative"

end Power

/-- How an expression begins. -/
inductive PrimaryRule where
  /-- An operator in front of its operand. -/
  | unary
  /-- A whole number or one with a fraction. -/
  | number
  /-- A string literal. -/
  | string
  /-- A character literal. -/
  | char
  /-- A truth value. -/
  | boolean
  /-- A name, alone, with arguments or with an index. -/
  | identifier
  /-- An expression in parentheses. -/
  | grouping
  /-- Statements in braces. -/
  | block
  /-- A new name for a value. -/
  | binding
  /-- A choice between two blocks. -/
  | cond
  /-- A `return`, `break` or `continue`. -/
  | jump
  /-- Whatever can begin an expression, without the operators after it. -/
  | operand
  /-- A whole expression. -/
  | expression
deriving Repr, DecidableEq

/-- How an operator joins its operands. -/
inductive OperatorRule where
  /-- Any two operands make a binary expression. -/
  | binary
  /-- The left operand has to be a name. The operator `:=` makes a binding of it. -/
  | assignment
deriving Repr, DecidableEq

/-- The rules for the kinds of tokens. -/
structure Tables where
  /-- How an expression begins that begins with a token of this kind. -/
  primary : Token.Kind → Option PrimaryRule
  /-- The power and the rule of an operator of this kind. -/
  operator : Token.Kind → Option (Power × OperatorRule)

namespace Tables

/-- No rules. -/
def empty : Tables := ⟨fun _ => none, fun _ => none⟩

/-- The rules of the language. -/
def standard : Tables where
  primary
    | .integer | .float => some .number
    | .string => some .string
    | .char => some .char
    | .trueWord | .falseWord => some .boolean
    | .ident => some .identifier
    | .minus | .bang => some .unary
    | .leftParen => some .grouping
    | .leftBrace => some .block
    | .letWord => some .binding
    | .ifWord => some .cond
    | .returnWord | .breakWord | .continueWord => some .jump
    | _ => none
  operator
    | .equal | .colonEqual => some (.assignment, .assignment)
    | .equalEqual | .bangEqual => some (.equality, .binary)
    | .less | .lessEqual | .greater | .greaterEqual => some (.relational, .binary)
    | .plus | .minus => some (.additive, .binary)
    | .star | .slash => some (.multiplicative, .binary)
    | _ => none

/-- The same rules with another way to begin an expression for one kind. -/
def withPrimary (t : Tables) (kind : Token.Kind) (rule : PrimaryRule) : Tables :=
  { t with primary := fun k => if k = kind then some rule else t.primary k }

/-- The same rules with another operator. -/
def withOperator (t : Tables) (kind : Token.Kind) (power : Power) (rule : OperatorRule) : Tables :=
  { t with operator := fun k => if k = kind then some (power, rule) else t.operator k }

/-- The power of a kind, the default one if it is no operator. -/
def power (t : Tables) (kind : Token.Kind) : Power :=
  match t.operator kind with
  | some (power, _) => power
  | none => .default

end Tables

end Fern.Parsing
