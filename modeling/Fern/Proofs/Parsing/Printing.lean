import Mathlib.Tactic
import Fern.Proofs.Parsing.Grammar
import Fern.Token.Piece

/-!
Programs written out as words, with parentheses around every part that can have them.

* `Word`: what a token says, apart from where it stands.
* `Tree.words`, `Prototype.words`, `Construct.words`: the words of an expression, of the head of a
  function, and of what stands at the top of a program.
* `Tree.Writable`, `Prototype.Writable`, `Construct.Writable`: what can be written, that is, what
  consists of the names, operators and types that programs can have.
* `Tree.erase`, `Prototype.erase`: the same without numbers and places, of which words say nothing.
-/

namespace Fern

/-! ### Words -/

/-- The kind and the lexeme of a token. -/
abbrev Word := Token.Kind × String

/-- What a token says, wherever it stands. -/
def Token.word (t : Token) : Word := (t.kind, t.lexeme)

/-- The spellings of the kinds that have only one. -/
def Token.spellings : List (Kind × String) :=
  reservedWords.map (fun p => (p.2, p.1))
    ++ punctuation.map (fun p => (p.2, String.singleton p.1))
    ++ punctuationPairs.map (fun p => (p.2.2, String.ofList [p.1, p.2.1]))

namespace Word

/-- The word of a kind that has only one spelling. -/
def fixed (kind : Token.Kind) : Word := (kind, (Token.spellings.lookup kind).getD "")

/-- A name, of the kind that the scanner gives it. -/
def name (n : String) : Word := (Token.wordKind n.toList, n)

/-- A number, which has a fraction exactly if there is a point in it. -/
def number (value : String) : Word :=
  (if '.' ∈ value.toList then .float else .integer, value)

/-- Words in parentheses. -/
def inParens (ws : List Word) : List Word := fixed .leftParen :: ws ++ [fixed .rightParen]

/-- Runs of words with commas between them. -/
def separated (wss : List (List Word)) : List Word := [fixed .comma].intercalate wss

end Word

/-- Names are words that are not reserved. -/
def IsName (name : String) : Prop := ∀ kind, (name, kind) ∉ Token.reservedWords

/-! ### Types -/

namespace Ty

/-- The types that can be stated: those with a name, behind any number of references. -/
def Stated (ty : Ty) : Prop := ty.base ∈ [Base.int, .float, .char, .str, .bool]

/-- A type is written as a mark for each reference and then its name. -/
def words (ty : Ty) : List Word :=
  List.replicate ty.depth (.fixed .ref) ++ [.name ty.base.name]

/-- The type of a binding is written after a colon, if it is stated. -/
def annotation : Option Ty → List Word
  | none => []
  | some ty => .fixed .colon :: ty.words

end Ty

/-! ### Expressions -/

namespace Tree

/-- Whether the expression is a block. -/
def isBlock : Tree → Bool
  | node _ _ (.block _) => true
  | _ => false

mutual

/-- The words of an expression. Operands, conditions, arguments, indices and the values of bindings,
returns and assignments stand in parentheses; the name that is assigned to does unless `bare`. -/
def words (bare : Bool) : Tree → List Word
  | missing _ => []
  | node _ _ (.binary operator left right) =>
    (if bare ∧ operator = .equal then words bare left else Word.inParens (words bare left))
      ++ Word.fixed operator :: Word.inParens (words bare right)
  | node _ _ (.unary operator operand) =>
    Word.fixed operator :: Word.inParens (words bare operand)
  | node _ _ (.cond condition thenBlock none) =>
    Word.fixed .ifWord :: Word.inParens (words bare condition) ++ words bare thenBlock
  | node _ _ (.cond condition thenBlock (some elseBlock)) =>
    Word.fixed .ifWord :: Word.inParens (words bare condition) ++ words bare thenBlock
      ++ Word.fixed .elseWord :: words bare elseBlock
  | node _ _ (.binding name stated value) =>
    Word.fixed .letWord :: Word.name name :: Ty.annotation stated
      ++ Word.fixed .equal :: Word.inParens (words bare value)
  | node _ _ (.block statements) =>
    Word.fixed .leftBrace :: statementWords bare statements ++ [Word.fixed .rightBrace]
  | node _ _ (.jump operator none) => [Word.fixed operator]
  | node _ _ (.jump operator (some value)) =>
    Word.fixed operator :: Word.inParens (words bare value)
  | node _ _ (.call callee arguments) =>
    Word.name callee :: Word.inParens (Word.separated (argumentWords bare arguments))
  | node _ _ (.var name) => [Word.name name]
  | node _ _ (.subscript operand index) =>
    words bare operand ++ Word.fixed .leftBracket :: Word.inParens (words bare index)
      ++ [Word.fixed .rightBracket]
  | node _ _ (.boolean value) => [Word.fixed (if value then .trueWord else .falseWord)]
  | node _ _ (.number value _) => [Word.number value]
  | node _ _ (.string value) => [(.string, value)]
  | node _ _ (.char value) => [(.char, value)]

/-- The words of statements, with a semicolon after each. -/
def statementWords (bare : Bool) : List Tree → List Word
  | [] => []
  | t :: ts => words bare t ++ Word.fixed .semicolon :: statementWords bare ts

/-- The words of each argument. -/
def argumentWords (bare : Bool) : List Tree → List (List Word)
  | [] => []
  | t :: ts => Word.inParens (words bare t) :: argumentWords bare ts

end

/-- The operators that join any two operands. -/
def binaryOperators : List Token.Kind :=
  [.equalEqual, .bangEqual, .less, .lessEqual, .greater, .greaterEqual, .plus, .minus, .star,
    .slash]

/-- Expressions that can be written. A `return` without a value has to stand directly in a block,
that is, as a `statement`. -/
inductive Writable : Bool → Tree → Prop
  | binary {statement id l operator left right} (hoperator : operator ∈ binaryOperators)
      (hleft : Writable false left) (hright : Writable false right) :
      Writable statement (.node id l (.binary operator left right))
  | assignment {statement id l targetId l' name value} (hname : IsName name)
      (hvalue : Writable false value) :
      Writable statement (.node id l (.binary .equal (.node targetId l' (.var name)) value))
  | unary {statement id l operator operand} (hoperator : operator = .minus ∨ operator = .bang)
      (hoperand : Writable false operand) :
      Writable statement (.node id l (.unary operator operand))
  | cond {statement id l condition thenBlock} (hcondition : Writable false condition)
      (hthen : Writable false thenBlock) (hblock : thenBlock.isBlock) :
      Writable statement (.node id l (.cond condition thenBlock none))
  | condElse {statement id l condition thenBlock elseBlock} (hcondition : Writable false condition)
      (hthen : Writable false thenBlock) (hblock : thenBlock.isBlock)
      (helse : Writable false elseBlock) (hblock' : elseBlock.isBlock) :
      Writable statement (.node id l (.cond condition thenBlock (some elseBlock)))
  | binding {statement id l name stated value} (hname : IsName name)
      (hstated : ∀ ty ∈ stated, Ty.Stated ty) (hvalue : Writable false value) :
      Writable statement (.node id l (.binding name stated value))
  | block {statement id l es} (hne : es ≠ []) (hes : ∀ e ∈ es, Writable true e) :
      Writable statement (.node id l (.block es))
  | bareReturn {id l} : Writable true (.node id l (.jump .returnWord none))
  | valueReturn {statement id l value} (hvalue : Writable false value) :
      Writable statement (.node id l (.jump .returnWord (some value)))
  | loopControl {statement id l operator} (h : operator = .breakWord ∨ operator = .continueWord) :
      Writable statement (.node id l (.jump operator none))
  | call {statement id l callee es} (hname : IsName callee) (hes : ∀ e ∈ es, Writable false e) :
      Writable statement (.node id l (.call callee es))
  | var {statement id l name} (hname : IsName name) : Writable statement (.node id l (.var name))
  | subscript {statement id l varId l' name index} (hname : IsName name)
      (hindex : Writable false index) :
      Writable statement (.node id l (.subscript (.node varId l' (.var name)) index))
  | boolean {statement id l value} : Writable statement (.node id l (.boolean value))
  | number {statement id l value isFloat} (hvalue : value ≠ "")
      (hpoint : isFloat = true ↔ '.' ∈ value.toList) :
      Writable statement (.node id l (.number value isFloat))
  | string {statement id l value} : Writable statement (.node id l (.string value))
  | char {statement id l value} : Writable statement (.node id l (.char value))

/-! ### Numbers and places -/

mutual

/-- The expression without the numbers and places of its parts. -/
def erase : Tree → Tree
  | missing _ => missing 0
  | node _ _ shape => node 0 .start (eraseShape shape)

/-- The form with subexpressions that have no numbers and places. -/
def eraseShape : Shape Tree → Shape Tree
  | .binary operator left right => .binary operator (erase left) (erase right)
  | .unary operator operand => .unary operator (erase operand)
  | .cond condition thenBlock elseBlock =>
    .cond (erase condition) (erase thenBlock) (eraseOption elseBlock)
  | .binding name stated value => .binding name stated (erase value)
  | .block statements => .block (eraseList statements)
  | .jump operator value => .jump operator (eraseOption value)
  | .call callee arguments => .call callee (eraseList arguments)
  | .var name => .var name
  | .subscript operand index => .subscript (erase operand) (erase index)
  | .boolean value => .boolean value
  | .number value isFloat => .number value isFloat
  | .string value => .string value
  | .char value => .char value

/-- The expression without numbers and places, if there is one. -/
def eraseOption : Option Tree → Option Tree
  | none => none
  | some t => some (erase t)

/-- The expressions without numbers and places. -/
def eraseList : List Tree → List Tree
  | [] => []
  | t :: ts => erase t :: eraseList ts

end

@[simp] lemma eraseOption_eq (t : Option Tree) : eraseOption t = t.map erase := by
  cases t <;> rfl

@[simp] lemma eraseList_eq (ts : List Tree) : eraseList ts = ts.map erase := by
  induction ts with
  | nil => rfl
  | cons t ts ih => simp [eraseList, ih]

/-- Without numbers and places, an expression is its form over subexpressions without them. -/
lemma erase_node (id : NodeId) (l : Location) (shape : Shape Tree) :
    (node id l shape).erase = node 0 .start (shape.map erase) := by
  cases shape <;> simp [erase, eraseShape, Shape.map]

end Tree

/-! ### Functions and declarations -/

/-- A parameter and its type. -/
def Parameter.words (p : Parameter) : List Word :=
  .name p.name :: .fixed .colon :: p.type.words

/-- A parameter without its place. -/
def Parameter.erase (p : Parameter) : Parameter := { p with location := .start }

namespace Prototype

/-- The head of a function. There is no arrow if nothing is returned. -/
def words (p : Prototype) : List Word :=
  .fixed .funcWord :: .name p.name ::
      Word.inParens (Word.separated (p.parameters.map Parameter.words))
    ++ if p.returnType = .void then [] else .fixed .arrow :: p.returnType.words

/-- A function that has a name and types which can be stated, or returns nothing. -/
structure Writable (p : Prototype) : Prop where
  name : IsName p.name
  parameters : ∀ q ∈ p.parameters, IsName q.name ∧ q.type.Stated
  returnType : p.returnType = .void ∨ p.returnType.Stated

/-- The head of a function without its place and those of its parameters. -/
def erase (p : Prototype) : Prototype :=
  { p with parameters := p.parameters.map Parameter.erase, location := .start }

end Prototype

namespace Parsing.Construct

/-- A function is written as its head and its body, a declaration as a head between `extern` and a
semicolon. -/
def words (bare : Bool) : Construct → List Word
  | function p body => p.words ++ body.words bare
  | declaration p => .fixed .externWord :: p.words ++ [.fixed .semicolon]

/-- Functions with a block as their body, and declarations. -/
def Writable : Construct → Prop
  | function p body => p.Writable ∧ body.Writable false ∧ body.isBlock
  | declaration p => p.Writable

end Parsing.Construct

end Fern
