import Mathlib.Tactic
import Fern.Parsing.Item

/-!
The parser with an index into the tokens.

* `Walker`: all the tokens, the index of the next one, and the expressions stored so far. The index
  may be too large. `Walker.state` forgets the tokens that have been read.
* `Walk`: computations of a walker, which may give nothing.
* `Walk.skip`, `Walk.advance`: the index grows whether or not there is a token.
* `Walk.expression`, `Walk.block`, `Walk.type`, `Walk.prototype`, `Walk.function`,
  `Walk.declaration`, `Walk.parse` and their companions: the parts of the parser.

Each part that repeats or calls others takes a bound on the depth of the calls and gives nothing if
this is not enough. A part ends if it gives the same result with every bound from some one on.
-/

namespace Fern.Parsing

/-- Where a reader with an index is. -/
@[ext] structure Walker where
  tokens : List Token
  /-- The index of the next token. -/
  position : ℕ := 0
  /-- The expressions stored so far. -/
  arena : Arena := .empty

/-- What is left to be read, and what has been stored. -/
def Walker.state (w : Walker) : State :=
  ⟨w.tokens.drop w.position, (w.tokens.getLast?.map Token.location).getD .start, w.arena⟩

/-- A computation over the tokens. It gives nothing if it is cut short; what it read and stored
stays so when it ends with a finding. -/
abbrev Walk := ExceptT Diagnostic (StateT Walker Option)

namespace Walk

/-! ### Elementary steps -/

/-- A computation that is cut short. -/
def never {α : Type} : Walk α := fun _ => none

/-- The state, as the parser knows it. -/
def look : Walk State := fun w => some (.ok w.state, w)

/-- The kind of the next token. -/
def kind : Walk Token.Kind := State.kind <$> look

/-- Skips a token. The index grows at the end of the tokens too. -/
def skip : Walk Unit := fun w => some (.ok (), { w with position := w.position + 1 })

/-- Reads a token, if there is one. The index grows at the end of the tokens too. -/
def advance : Walk (Option Token) := fun w =>
  some (.ok w.tokens[w.position]?, { w with position := w.position + 1 })

/-- A step of the parser that reads no token. -/
def still {α : Type} (p : Parse α) : Walk α := fun w =>
  match p w.state with
  | .ok a s => some (.ok a, { w with arena := s.arena })
  | .error (.finding d) s => some (.error d, { w with arena := s.arena })
  | .error .exhausted _ => none

/-- Fails with a problem at a place. -/
def fail {α : Type} (p : Problem) (l : Location) : Walk α := still (Parsing.fail p l)

/-- Reads a token of one kind, which messages call `expected`. -/
def expect (k : Token.Kind) (expected : String) : Walk Token := fun w =>
  match w.tokens[w.position]? with
  | some t =>
    if t.kind = k then some (.ok t, { w with position := w.position + 1 })
    else still (failUnexpected expected) w
  | none => still (failUnexpected expected) w

/-- Stores an expression at a place under the next number. -/
def add (shape : Shape Tree) (l : Location) : Walk Tree := still (Parsing.add shape l)

/-- If the next token is of one kind, skips it and goes on with `q`. -/
def optionally {α : Type} (k : Token.Kind) (q : Walk α) : Walk (Option α) := do
  if (← kind) = k then
    skip
    some <$> q
  else return none

/-- Goes on with `q` unless the next token is of one kind. -/
def listUnless {α : Type} (k : Token.Kind) (q : Walk (List α)) : Walk (List α) := do
  if (← kind) = k then return [] else q

/-! ### Types and literals -/

/-- Reads the reference marks that come next, and counts them. -/
def references : ℕ → Walk ℕ
  | 0 => never
  | n + 1 => do
    if (← kind) = .ref then
      skip
      return (← references n) + 1
    else return 0

/-- A type: reference marks and the name of a type. -/
def type (n : ℕ) : Walk Ty := do
  let depth ← references n
  let token ← expect .ident "type name"
  match Ty.ofName? token.lexeme with
  | some base => return ⟨base, depth⟩
  | none => fail (.unknownType token.lexeme) token.location

/-- A number. Whatever token stands here is taken as its text. -/
def number : Walk Tree := do
  let s ← look
  skip
  add (.number s.lexeme (s.kind = .float)) s.location

/-- A string literal. -/
def string : Walk Tree := do
  let token ← expect .string "string"
  add (.string token.lexeme) token.location

/-- A character literal. -/
def char : Walk Tree := do
  let token ← expect .char "character"
  add (.char token.lexeme) token.location

/-- A truth value. Whatever token stands here is taken, as false if it is not `true`. -/
def boolean : Walk Tree := do
  let s ← look
  skip
  add (.boolean (s.kind = .trueWord)) s.location

/-- The end of a statement: a semicolon, or the closing brace, which is left to be read. A statement
that ends with a block needs neither. -/
def statementEnd (statement : Tree) : Walk Unit := do
  let s ← look
  match s.kind with
  | .semicolon => skip
  | .rightBrace => return ()
  | _ =>
    if statement.endsWithBlock then return ()
    else fail (.expectedStatementEnd s.lexeme) s.location

/-! ### Expressions -/

mutual

/-- An operand and the operators after it. -/
def expression (tables : Tables) : ℕ → Walk Tree
  | 0 => never
  | n + 1 => do
    let left ← operand tables n
    climb tables n 0 left

/-- The operators after `left` whose level is at least `least`, with their right operands. -/
def climb (tables : Tables) : ℕ → Int → Tree → Walk Tree
  | 0, _, _ => never
  | n + 1, least, left => do
    match tables.operator (← kind) with
    | none => return left
    | some (power, rule) =>
      if power.level < least then return left
      else
        match ← advance with
        | none => return left
        | some operator =>
          let first ← operand tables n
          let next ← kind
          let right ← (if power.level < (tables.power next).level then
            climb tables n (power.level + 1) first else pure first)
          let joined ← still (join rule left operator right)
          climb tables n least joined

/-- Whatever can begin an expression. -/
def operand (tables : Tables) : ℕ → Walk Tree
  | 0 => never
  | n + 1 => do
    let s ← look
    match tables.primary s.kind with
    | some rule => primary tables n rule
    | none => fail (.expectedExpression s.lexeme) s.location

/-- An expression that begins in a given way. -/
def primary (tables : Tables) : ℕ → PrimaryRule → Walk Tree
  | 0, _ => never
  | _ + 1, .number => number
  | _ + 1, .string => string
  | _ + 1, .char => char
  | _ + 1, .boolean => boolean
  | n + 1, .unary => do
    let s ← look
    skip
    let operand ← operand tables n
    add (.unary s.kind operand) s.location
  | n + 1, .identifier => do
    let token ← expect .ident "identifier"
    match ← kind with
    | .leftParen =>
      skip
      let arguments ← listUnless .rightParen (arguments tables n)
      let _ ← expect .rightParen "`)`"
      add (.call token.lexeme arguments) token.location
    | .leftBracket =>
      let operand ← add (.var token.lexeme) token.location
      let s ← look
      skip
      let index ← expression tables n
      let _ ← expect .rightBracket "closing `]`"
      add (.subscript operand index) s.location
    | _ => add (.var token.lexeme) token.location
  | n + 1, .grouping => do
    let _ ← expect .leftParen "`(`"
    let inner ← expression tables n
    let _ ← expect .rightParen "`)`"
    return inner
  | n + 1, .block => block tables n
  | n + 1, .binding => do
    let start ← expect .letWord "`let`"
    let name ← expect .ident "variable name after `let`"
    let stated ← optionally .colon (type n)
    let _ ← expect .equal "`=`"
    let value ← expression tables n
    add (.binding name.lexeme stated value) start.location
  | n + 1, .cond => do
    let start ← expect .ifWord "`if`"
    let condition ← expression tables n
    let thenBlock ← block tables n
    let elseBlock ← optionally .elseWord (block tables n)
    add (.cond condition thenBlock elseBlock) start.location
  | n + 1, .jump => do
    let s ← look
    skip
    let next ← kind
    let value ← (if s.kind = .returnWord ∧ next ≠ .semicolon ∧ next ≠ .rightBrace then
      some <$> expression tables n else pure none)
    add (.jump s.kind value) s.location
  | n + 1, .operand => operand tables n
  | n + 1, .expression => expression tables n

/-- One argument or more, with commas between them, up to the closing parenthesis. -/
def arguments (tables : Tables) : ℕ → Walk (List Tree)
  | 0 => never
  | n + 1 => do
    let argument ← expression tables n
    match ← kind with
    | .comma =>
      skip
      let others ← arguments tables n
      return argument :: others
    | .rightParen => return [argument]
    | _ => still (failUnexpected "`,` or `)`")

/-- One statement or more in braces. -/
def block (tables : Tables) : ℕ → Walk Tree
  | 0 => never
  | n + 1 => do
    let start ← expect .leftBrace "`\x7b`"
    still (requireStatement start.location)
    let statements ← statements tables n
    let _ ← expect .rightBrace "`\x7d`"
    add (.block statements) start.location

/-- Statements up to the closing brace. A semicolon follows each but the last, and may be left out
after a statement that ends with a block. -/
def statements (tables : Tables) : ℕ → Walk (List Tree)
  | 0 => never
  | n + 1 => do
    if (← kind) = .rightBrace then return []
    else
      let statement ← expression tables n
      statementEnd statement
      let others ← statements tables n
      return statement :: others

end

/-! ### Functions, declarations and programs -/

/-- A parameter with its type. -/
def parameter (n : ℕ) : Walk Parameter := do
  let name ← expect .ident "identifier"
  let _ ← expect .colon "`:`"
  let type ← type n
  return ⟨name.lexeme, type, name.location⟩

/-- One parameter or more, with commas between them, up to the closing parenthesis. -/
def parameters : ℕ → Walk (List Parameter)
  | 0 => never
  | n + 1 => do
    let first ← parameter n
    match ← kind with
    | .comma =>
      skip
      let others ← parameters n
      return first :: others
    | .rightParen => return [first]
    | _ => still (failUnexpected "`,` or `)`")

/-- The name, the parameters and the return type of a function. Without an arrow nothing is
returned. -/
def prototype (n : ℕ) : Walk Prototype := do
  let _ ← expect .funcWord "`func`"
  let name ← expect .ident "identifier"
  let _ ← expect .leftParen "`(`"
  let parameters ← listUnless .rightParen (parameters n)
  let _ ← expect .rightParen "`)`"
  let returnType ← optionally .arrow (type n)
  return ⟨name.lexeme, parameters, returnType.getD .void, name.location⟩

/-- A function: its prototype and its body. -/
def function (tables : Tables) (n : ℕ) : Walk Function := do
  let prototype ← prototype n
  let body ← block tables n
  return ⟨prototype, body.id⟩

/-- A declaration of a function that is defined elsewhere. -/
def declaration (n : ℕ) : Walk Prototype := do
  let _ ← expect .externWord "`extern`"
  let prototype ← prototype n
  let _ ← expect .semicolon "`;`"
  return prototype

/-- A function or a declaration. -/
def item (tables : Tables) (n : ℕ) : Walk Item := do
  let s ← look
  match s.kind with
  | .funcWord => .function <$> function tables n
  | .externWord => .declaration <$> declaration n
  | _ => fail (.unexpectedTopLevelToken s.lexeme) s.location

/-- Items while there are tokens. -/
def items (tables : Tables) : ℕ → Walk (List Item)
  | 0 => never
  | n + 1 => do
    let w ← get
    if w.position < w.tokens.length then
      let first ← item tables n
      let others ← items tables n
      return first :: others
    else return []

/-- A whole program. -/
def program (tables : Tables) (n : ℕ) : Walk Program := do
  let items ← items tables n
  let arena ← still takeArena
  return ⟨arena, items.filterMap Item.declaration?, items.filterMap Item.function?⟩

/-- The program that the tokens make, with the index in the end. A problem is recorded, and then
there is no program. -/
def parse (tokens : List Token) (log : Log) (n : ℕ) : Option ((Option Program × Log) × ℕ) :=
  match program .standard n { tokens := tokens } with
  | some (.ok program, w) => some ((some program, log), w.position)
  | some (.error d, w) => some ((none, log.record d), w.position)
  | none => none

end Walk

end Fern.Parsing
