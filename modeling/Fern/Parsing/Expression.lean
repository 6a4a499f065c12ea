import Fern.Parsing.State
import Fern.Parsing.Tables

/-!
Expressions and blocks.

* `expressionWithin`: an operand and the operators after it. An operator takes as its right operand
  all that is joined by stronger ones (`climbWithin`).
* `operandWithin`: the way in which an expression begins decides how it goes on.
* `blockWithin`: statements in braces, with semicolons between them.
* `expression`, `operand`, `block`, `primary`: the same with enough steps for the tokens there are.

The number is a bound on the steps; each call has one fewer than its caller.
-/

namespace Fern.Parsing

/-! ### Types and literals -/

/-- Whether a token is a reference mark. -/
def isRef (t : Token) : Bool := t.kind = .ref

/-- Reads the reference marks that come next, and counts them. -/
def references : Parse Nat := fun s =>
  .ok (s.rest.takeWhile isRef).length { s with rest := s.rest.dropWhile isRef }

/-- A type: reference marks and the name of a type. -/
def type : Parse Ty := do
  let depth ← references
  let token ← expect .ident "type name"
  match Ty.ofName? token.lexeme with
  | some base => return ⟨base, depth⟩
  | none => fail (.unknownType token.lexeme) token.location

/-- A number. Whatever token stands here is taken as its text. -/
def number : Parse Tree := do
  let s ← get
  skip
  add (.number s.lexeme (s.kind = .float)) s.location

/-- A string literal. -/
def string : Parse Tree := do
  let token ← expect .string "string"
  add (.string token.lexeme) token.location

/-- A character literal. -/
def char : Parse Tree := do
  let token ← expect .char "character"
  add (.char token.lexeme) token.location

/-- A truth value. Whatever token stands here is taken, as false if it is not `true`. -/
def boolean : Parse Tree := do
  let s ← get
  skip
  add (.boolean (s.kind = .trueWord)) s.location

/-! ### Operators -/

/-- Joins two operands by an operator. -/
def join (rule : OperatorRule) (left : Tree) (operator : Token) (right : Tree) : Parse Tree :=
  match rule, left.name? with
  | .binary, _ => add (.binary operator.kind left right) operator.location
  | .assignment, none => fail .invalidAssignmentTarget operator.location
  | .assignment, some name =>
    if operator.kind = .colonEqual then add (.binding name none right) left.location
    else add (.binary operator.kind left right) operator.location

/-! ### Blocks -/

/-- Fails at a block without statements, which began at `l`. -/
def requireStatement (l : Location) : Parse Unit := do
  if (← kind) = .rightBrace then fail .emptyBlock l else return ()

/-- The end of a statement: a semicolon, or the closing brace, which is left to be read. A statement
that ends with a block needs neither. -/
def statementEnd (statement : Tree) : Parse Unit := do
  match ← kind with
  | .semicolon => skip
  | .rightBrace => return ()
  | _ =>
    if statement.endsWithBlock then return ()
    else fail (.expectedStatementEnd (← lexeme)) (← location)

/-! ### Expressions -/

mutual

/-- An operand and the operators after it. -/
def expressionWithin (tables : Tables) : Nat → Parse Tree
  | 0 => throw .exhausted
  | n + 1 => do
    let left ← operandWithin tables n
    climbWithin tables n 0 left

/-- The operators after `left` whose level is at least `least`, with their right operands. -/
def climbWithin (tables : Tables) : Nat → Int → Tree → Parse Tree
  | 0, _, _ => throw .exhausted
  | n + 1, least, left => do
    match tables.operator (← kind) with
    | none => return left
    | some (power, rule) =>
      if power.level < least then return left
      else
        match ← advance with
        | none => return left
        | some operator =>
          let first ← operandWithin tables n
          let next ← kind
          let right ← (if power.level < (tables.power next).level then
            climbWithin tables n (power.level + 1) first else pure first)
          let joined ← join rule left operator right
          climbWithin tables n least joined

/-- Whatever can begin an expression. -/
def operandWithin (tables : Tables) : Nat → Parse Tree
  | 0 => throw .exhausted
  | n + 1 => do
    match tables.primary (← kind) with
    | some rule => primaryWithin tables n rule
    | none => fail (.expectedExpression (← lexeme)) (← location)

/-- An expression that begins in a given way. -/
def primaryWithin (tables : Tables) : Nat → PrimaryRule → Parse Tree
  | 0, _ => throw .exhausted
  | _ + 1, .number => number
  | _ + 1, .string => string
  | _ + 1, .char => char
  | _ + 1, .boolean => boolean
  | n + 1, .unary => do
    let s ← get
    skip
    let operand ← operandWithin tables n
    add (.unary s.kind operand) s.location
  | n + 1, .identifier => do
    let token ← expect .ident "identifier"
    match ← kind with
    | .leftParen =>
      skip
      let arguments ← listUnless .rightParen (argumentsWithin tables n)
      let _ ← expect .rightParen "`)`"
      add (.call token.lexeme arguments) token.location
    | .leftBracket =>
      let operand ← add (.var token.lexeme) token.location
      let bracket ← location
      skip
      let index ← expressionWithin tables n
      let _ ← expect .rightBracket "closing `]`"
      add (.subscript operand index) bracket
    | _ => add (.var token.lexeme) token.location
  | n + 1, .grouping => do
    let _ ← expect .leftParen "`(`"
    let inner ← expressionWithin tables n
    let _ ← expect .rightParen "`)`"
    return inner
  | n + 1, .block => blockWithin tables n
  | n + 1, .binding => do
    let start ← expect .letWord "`let`"
    let name ← expect .ident "variable name after `let`"
    let stated ← optionally .colon type
    let _ ← expect .equal "`=`"
    let value ← expressionWithin tables n
    add (.binding name.lexeme stated value) start.location
  | n + 1, .cond => do
    let start ← expect .ifWord "`if`"
    let condition ← expressionWithin tables n
    let thenBlock ← blockWithin tables n
    let elseBlock ← optionally .elseWord (blockWithin tables n)
    add (.cond condition thenBlock elseBlock) start.location
  | n + 1, .jump => do
    let s ← get
    skip
    let next ← kind
    let value ← (if s.kind = .returnWord ∧ next ≠ .semicolon ∧ next ≠ .rightBrace then
      some <$> expressionWithin tables n else pure none)
    add (.jump s.kind value) s.location
  | n + 1, .operand => operandWithin tables n
  | n + 1, .expression => expressionWithin tables n

/-- One argument or more, with commas between them, up to the closing parenthesis. -/
def argumentsWithin (tables : Tables) : Nat → Parse (List Tree)
  | 0 => throw .exhausted
  | n + 1 => do
    let argument ← expressionWithin tables n
    match ← kind with
    | .comma =>
      skip
      let others ← argumentsWithin tables n
      return argument :: others
    | .rightParen => return [argument]
    | _ => failUnexpected "`,` or `)`"

/-- One statement or more in braces. -/
def blockWithin (tables : Tables) : Nat → Parse Tree
  | 0 => throw .exhausted
  | n + 1 => do
    let start ← expect .leftBrace "`\x7b`"
    requireStatement start.location
    let statements ← statementsWithin tables n
    let _ ← expect .rightBrace "`\x7d`"
    add (.block statements) start.location

/-- Statements up to the closing brace. A semicolon follows each but the last, and may be left out
after a statement that ends with a block. -/
def statementsWithin (tables : Tables) : Nat → Parse (List Tree)
  | 0 => throw .exhausted
  | n + 1 => do
    if (← kind) = .rightBrace then return []
    else
      let statement ← expressionWithin tables n
      statementEnd statement
      let others ← statementsWithin tables n
      return statement :: others

end

/-- An expression. -/
def expression (tables : Tables) : Parse Tree := withinBudget (expressionWithin tables)

/-- Whatever can begin an expression. -/
def operand (tables : Tables) : Parse Tree := withinBudget (operandWithin tables)

/-- An expression that begins in a given way. -/
def primary (tables : Tables) (rule : PrimaryRule) : Parse Tree :=
  withinBudget fun n => primaryWithin tables n rule

/-- One statement or more in braces. -/
def block (tables : Tables) : Parse Tree := withinBudget (blockWithin tables)

end Fern.Parsing
