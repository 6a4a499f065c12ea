import Fern.Diagnostic
import Fern.Program

/-!
What a reader of tokens knows, and its elementary steps.

* `State`: the tokens still to be read and the expressions stored so far. Both stay as they are when
  a step fails.
* `Failure`: a finding about the tokens, or the end of the steps allowed.
* `Parse`: the computations of the parser.
* `advance`, `expect`, `add`: reading a token, reading one of a given kind, storing an expression.
* `optionally`, `listUnless`: parts that the next token decides on.
-/

namespace Fern.Parsing

/-- Where a reader of tokens is. -/
structure State where
  /-- The tokens still to be read. -/
  rest : List Token
  /-- The place of the last token, which stands for the end of the input. -/
  last : Location
  /-- The expressions stored so far. -/
  arena : Arena := .empty
deriving Repr, DecidableEq

namespace State

/-- The beginning of a list of tokens. -/
def ofTokens (tokens : List Token) : State :=
  ⟨tokens, (tokens.getLast?.map Token.location).getD .start, .empty⟩

/-- The kind of the next token. -/
def kind (s : State) : Token.Kind :=
  match s.rest with
  | [] => .endOfInput
  | t :: _ => t.kind

/-- The text of the next token, as messages quote it: the name of the kind where it has none. -/
def lexeme (s : State) : String :=
  match s.rest with
  | [] => "end of file"
  | t :: _ => if t.lexeme.isEmpty then t.kind.name else t.lexeme

/-- The place of the next token, or of the last one at the end. -/
def location (s : State) : Location :=
  match s.rest with
  | [] => s.last
  | t :: _ => t.location

/-- The finding that the next token is not what is expected. -/
def unexpected (s : State) (expected : String) : Diagnostic :=
  .error (.unexpectedToken expected s.lexeme) s.location

end State

/-- Why a computation of the parser gives no result. -/
inductive Failure where
  /-- The tokens are not what they should be. -/
  | finding (d : Diagnostic)
  /-- More steps would be needed than are allowed. -/
  | exhausted
deriving Repr, DecidableEq

/-- A computation over the tokens. What it read and stored stays so when it fails. -/
abbrev Parse := EStateM Failure State

/-- Fails with a problem at a place. -/
def fail {α : Type} (p : Problem) (l : Location) : Parse α :=
  throw (.finding (.error p l))

/-- The kind of the next token. -/
def kind : Parse Token.Kind := fun s => .ok s.kind s

/-- The place of the next token. -/
def location : Parse Location := fun s => .ok s.location s

/-- The text of the next token, as messages quote it. -/
def lexeme : Parse String := fun s => .ok s.lexeme s

/-- Reads a token, if there is one. -/
def advance : Parse (Option Token) := fun s => .ok s.rest.head? { s with rest := s.rest.tail }

/-- Skips a token. -/
def skip : Parse Unit := fun s => .ok () { s with rest := s.rest.tail }

/-- Fails because the next token is not what is expected. -/
def failUnexpected {α : Type} (expected : String) : Parse α := fun s =>
  .error (.finding (s.unexpected expected)) s

/-- Reads a token of one kind, which messages call `expected`. -/
def expect (kind : Token.Kind) (expected : String) : Parse Token := fun s =>
  match s.rest with
  | t :: rest => if t.kind = kind then .ok t { s with rest := rest } else failUnexpected expected s
  | [] => failUnexpected expected s

/-- Stores an expression at a place under the next number. -/
def add (shape : Shape Tree) (l : Location) : Parse Tree := fun s =>
  .ok (.node s.arena.size l shape) { s with arena := s.arena.add (shape.map Tree.id) l }

/-- Takes the stored expressions out. -/
def takeArena : Parse Arena := fun s => .ok s.arena { s with arena := .empty }

/-- If the next token is of one kind, skips it and goes on with `p`. -/
def optionally {α : Type} (k : Token.Kind) (p : Parse α) : Parse (Option α) := do
  if (← kind) = k then
    skip
    some <$> p
  else return none

/-- Goes on with `p` unless the next token is of one kind. -/
def listUnless {α : Type} (k : Token.Kind) (p : Parse (List α)) : Parse (List α) := do
  if (← kind) = k then return [] else p

/-- Runs a computation with enough steps for the tokens that are left: between two tokens that it
reads it never takes as many as eight. -/
def withinBudget {α : Type} (p : Nat → Parse α) : Parse α := fun s =>
  p (8 * (s.rest.length + 1)) s

end Fern.Parsing
