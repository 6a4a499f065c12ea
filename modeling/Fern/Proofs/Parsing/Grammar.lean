import Mathlib.Tactic
import Fern.Program

/-!
The grammar of the language, apart from the parser.

Every relation has the tokens before a part, the part itself, and the tokens after it; the tokens
after it are there because a bare `return` depends on the next of them. The numbers of the
expressions are left open, since they belong to a store and not to the text.

* `IsType`: reference marks and the name of a type.
* `IsTarget`: a name, in any number of parentheses.
* `IsExpression`, `IsChain`, `IsOperand`: an assignment or what can stand in one; operands joined by
  operators, in one layer for each strength; a single operand.
* `AreArguments`, `IsBlock`, `AreStatements`: arguments with commas between them, a block, and what
  stands in one.
* `IsPrototype`, `IsProgram`: the head of a function, and functions and declarations up to the end.
-/

namespace Fern

namespace Parsing

/-- The text of a token, or the name of its kind where it has none. -/
def textOrKind (t : Token) : String := if t.lexeme.isEmpty then t.kind.name else t.lexeme

/-- The operators of a layer. Those of a layer join operands of the layers below it. -/
def layerOperators : Nat → List Token.Kind
  | 1 => [.star, .slash]
  | 2 => [.plus, .minus]
  | 3 => [.less, .lessEqual, .greater, .greaterEqual]
  | 4 => [.equalEqual, .bangEqual]
  | _ => []

/-! ### Types and names -/

/-- A type: reference marks and the name of a type. -/
inductive IsType : List Token → Ty → List Token → Prop
  | named {name ts base} (hname : name.kind = .ident) (known : Ty.ofName? name.lexeme = some base) :
      IsType (name :: ts) ⟨base, 0⟩ ts
  | reference {mark ts ty ts'} (hmark : mark.kind = .ref) (inner : IsType ts ty ts') :
      IsType (mark :: ts) ty.reference ts'

/-- What can be assigned to: a name, in any number of parentheses. -/
inductive IsTarget : List Token → Tree → List Token → Prop
  | name {name ts id} (hname : name.kind = .ident) :
      IsTarget (name :: ts) (.node id name.location (.var name.lexeme)) ts
  | parentheses {opening ts e closing ts'} (hopening : opening.kind = .leftParen)
      (inner : IsTarget ts e (closing :: ts')) (hclosing : closing.kind = .rightParen) :
      IsTarget (opening :: ts) e ts'

/-- The type that a binding states, if any. -/
inductive IsAnnotation : List Token → Option Ty → List Token → Prop
  | absent {ts} : IsAnnotation ts none ts
  | stated {colon ts ty ts'} (hcolon : colon.kind = .colon) (htype : IsType ts ty ts') :
      IsAnnotation (colon :: ts) (some ty) ts'

/-! ### Expressions -/

mutual

/-- An expression: an assignment to a name, a new name for a value, or neither. -/
inductive IsExpression : List Token → Tree → List Token → Prop
  | chain {ts e ts'} (h : IsChain 4 ts e ts') : IsExpression ts e ts'
  | assignment {ts target operator ts₁ value ts' id}
      (htarget : IsTarget ts target (operator :: ts₁)) (hoperator : operator.kind = .equal)
      (hvalue : IsChain 4 ts₁ value ts') :
      IsExpression ts (.node id operator.location (.binary .equal target value)) ts'
  | definition {ts targetId location name operator ts₁ value ts' id}
      (htarget : IsTarget ts (.node targetId location (.var name)) (operator :: ts₁))
      (hoperator : operator.kind = .colonEqual) (hvalue : IsChain 4 ts₁ value ts') :
      IsExpression ts (.node id location (.binding name none value)) ts'

/-- Operands joined by the operators of a layer and of those below it. The operators of one layer
join from left to right. -/
inductive IsChain : Nat → List Token → Tree → List Token → Prop
  | operand {ts e ts'} (h : IsOperand ts e ts') : IsChain 0 ts e ts'
  | lower {layer ts e ts'} (h : IsChain layer ts e ts') : IsChain (layer + 1) ts e ts'
  | join {layer ts left operator ts₁ right ts' id}
      (hleft : IsChain (layer + 1) ts left (operator :: ts₁))
      (hoperator : operator.kind ∈ layerOperators (layer + 1))
      (hright : IsChain layer ts₁ right ts') :
      IsChain (layer + 1) ts (.node id operator.location (.binary operator.kind left right)) ts'

/-- A single operand. A `return` takes no value exactly where a statement can end. -/
inductive IsOperand : List Token → Tree → List Token → Prop
  | unary {operator ts e ts' id} (hoperator : operator.kind = .minus ∨ operator.kind = .bang)
      (h : IsOperand ts e ts') :
      IsOperand (operator :: ts) (.node id operator.location (.unary operator.kind e)) ts'
  | number {token ts id} (htoken : token.kind = .integer ∨ token.kind = .float) :
      IsOperand (token :: ts)
        (.node id token.location (.number (textOrKind token) (token.kind = .float))) ts
  | string {token ts id} (htoken : token.kind = .string) :
      IsOperand (token :: ts) (.node id token.location (.string token.lexeme)) ts
  | char {token ts id} (htoken : token.kind = .char) :
      IsOperand (token :: ts) (.node id token.location (.char token.lexeme)) ts
  | boolean {token ts id} (htoken : token.kind = .trueWord ∨ token.kind = .falseWord) :
      IsOperand (token :: ts) (.node id token.location (.boolean (token.kind = .trueWord))) ts
  | var {name ts id} (hname : name.kind = .ident) :
      IsOperand (name :: ts) (.node id name.location (.var name.lexeme)) ts
  | emptyCall {name opening closing ts id} (hname : name.kind = .ident)
      (hopening : opening.kind = .leftParen) (hclosing : closing.kind = .rightParen) :
      IsOperand (name :: opening :: closing :: ts)
        (.node id name.location (.call name.lexeme [])) ts
  | call {name opening ts arguments closing ts' id} (hname : name.kind = .ident)
      (hopening : opening.kind = .leftParen) (h : AreArguments ts arguments (closing :: ts'))
      (hclosing : closing.kind = .rightParen) :
      IsOperand (name :: opening :: ts) (.node id name.location (.call name.lexeme arguments)) ts'
  | subscript {name opening ts index closing ts' varId id} (hname : name.kind = .ident)
      (hopening : opening.kind = .leftBracket) (h : IsExpression ts index (closing :: ts'))
      (hclosing : closing.kind = .rightBracket) :
      IsOperand (name :: opening :: ts)
        (.node id opening.location
          (.subscript (.node varId name.location (.var name.lexeme)) index)) ts'
  | grouping {opening ts e closing ts'} (hopening : opening.kind = .leftParen)
      (h : IsExpression ts e (closing :: ts')) (hclosing : closing.kind = .rightParen) :
      IsOperand (opening :: ts) e ts'
  | block {ts e ts'} (h : IsBlock ts e ts') : IsOperand ts e ts'
  | binding {word name ts stated equal ts₁ value ts' id} (hword : word.kind = .letWord)
      (hname : name.kind = .ident) (hstated : IsAnnotation ts stated (equal :: ts₁))
      (hequal : equal.kind = .equal) (hvalue : IsExpression ts₁ value ts') :
      IsOperand (word :: name :: ts)
        (.node id word.location (.binding name.lexeme stated value)) ts'
  | cond {word ts condition ts₁ thenBlock ts' id} (hword : word.kind = .ifWord)
      (hcondition : IsExpression ts condition ts₁) (hthen : IsBlock ts₁ thenBlock ts') :
      IsOperand (word :: ts) (.node id word.location (.cond condition thenBlock none)) ts'
  | condElse {word ts condition ts₁ thenBlock other ts₂ elseBlock ts' id}
      (hword : word.kind = .ifWord) (hcondition : IsExpression ts condition ts₁)
      (hthen : IsBlock ts₁ thenBlock (other :: ts₂)) (hother : other.kind = .elseWord)
      (helse : IsBlock ts₂ elseBlock ts') :
      IsOperand (word :: ts)
        (.node id word.location (.cond condition thenBlock (some elseBlock))) ts'
  | valueReturn {word ts value ts' id} (hword : word.kind = .returnWord)
      (hvalue : IsExpression ts value ts') :
      IsOperand (word :: ts) (.node id word.location (.jump .returnWord (some value))) ts'
  | bareReturn {word next ts id} (hword : word.kind = .returnWord)
      (hnext : next.kind = .semicolon ∨ next.kind = .rightBrace) :
      IsOperand (word :: next :: ts) (.node id word.location (.jump .returnWord none)) (next :: ts)
  | loopControl {word ts id} (hword : word.kind = .breakWord ∨ word.kind = .continueWord) :
      IsOperand (word :: ts) (.node id word.location (.jump word.kind none)) ts

/-- One argument or more, with commas between them. -/
inductive AreArguments : List Token → List Tree → List Token → Prop
  | last {ts e ts'} (h : IsExpression ts e ts') : AreArguments ts [e] ts'
  | more {ts e comma ts₁ es ts'} (h : IsExpression ts e (comma :: ts₁))
      (hcomma : comma.kind = .comma) (others : AreArguments ts₁ es ts') :
      AreArguments ts (e :: es) ts'

/-- Statements in braces. -/
inductive IsBlock : List Token → Tree → List Token → Prop
  | braces {opening ts es closing ts' id} (hopening : opening.kind = .leftBrace)
      (h : AreStatements ts es (closing :: ts')) (hclosing : closing.kind = .rightBrace) :
      IsBlock (opening :: ts) (.node id opening.location (.block es)) ts'

/-- One statement or more, with semicolons between them and perhaps one after the last. No semicolon
is needed after a statement that ends with a block. -/
inductive AreStatements : List Token → List Tree → List Token → Prop
  | last {ts e ts'} (h : IsExpression ts e ts') : AreStatements ts [e] ts'
  | closed {ts e semicolon ts'} (h : IsExpression ts e (semicolon :: ts'))
      (hsemicolon : semicolon.kind = .semicolon) : AreStatements ts [e] ts'
  | separated {ts e semicolon ts₁ es ts'} (h : IsExpression ts e (semicolon :: ts₁))
      (hsemicolon : semicolon.kind = .semicolon) (others : AreStatements ts₁ es ts') :
      AreStatements ts (e :: es) ts'
  | adjacent {ts e ts₁ es ts'} (h : IsExpression ts e ts₁) (hend : e.endsWithBlock)
      (others : AreStatements ts₁ es ts') : AreStatements ts (e :: es) ts'

end

/-! ### Programs -/

/-- One parameter or more, with commas between them. -/
inductive AreParameters : List Token → List Parameter → List Token → Prop
  | last {name colon ts ty ts'} (hname : name.kind = .ident) (hcolon : colon.kind = .colon)
      (htype : IsType ts ty ts') :
      AreParameters (name :: colon :: ts) [⟨name.lexeme, ty, name.location⟩] ts'
  | more {name colon ts ty comma ts₁ parameters ts'} (hname : name.kind = .ident)
      (hcolon : colon.kind = .colon) (htype : IsType ts ty (comma :: ts₁))
      (hcomma : comma.kind = .comma) (others : AreParameters ts₁ parameters ts') :
      AreParameters (name :: colon :: ts) (⟨name.lexeme, ty, name.location⟩ :: parameters) ts'

/-- No parameters, or some. -/
inductive IsParameterList : List Token → List Parameter → List Token → Prop
  | empty {ts} : IsParameterList ts [] ts
  | some {ts parameters ts'} (h : AreParameters ts parameters ts') :
      IsParameterList ts parameters ts'

/-- The type after an arrow, and `void` if there is none. -/
inductive IsReturnType : List Token → Ty → List Token → Prop
  | absent {ts} : IsReturnType ts .void ts
  | stated {arrow ts ty ts'} (harrow : arrow.kind = .arrow) (htype : IsType ts ty ts') :
      IsReturnType (arrow :: ts) ty ts'

/-- The name, the parameters and the return type of a function. -/
inductive IsPrototype : List Token → Prototype → List Token → Prop
  | intro {word name opening ts parameters closing ts₁ ty ts'} (hword : word.kind = .funcWord)
      (hname : name.kind = .ident) (hopening : opening.kind = .leftParen)
      (hparameters : IsParameterList ts parameters (closing :: ts₁))
      (hclosing : closing.kind = .rightParen) (hreturn : IsReturnType ts₁ ty ts') :
      IsPrototype (word :: name :: opening :: ts) ⟨name.lexeme, parameters, ty, name.location⟩ ts'

/-- What stands at the top of a program, with its body as a tree. -/
inductive Construct where
  | function (p : Prototype) (body : Tree)
  | declaration (p : Prototype)

/-- The function that a construct is, with its body. -/
def Construct.function? : Construct → Option (Prototype × Tree)
  | .function p body => some (p, body)
  | .declaration _ => none

/-- The declaration that a construct is. -/
def Construct.declaration? : Construct → Option Prototype
  | .function _ _ => none
  | .declaration p => some p

/-- Functions and declarations up to the end of the tokens. -/
inductive IsProgram : List Token → List Construct → Prop
  | empty : IsProgram [] []
  | function {ts p ts₁ body ts' others} (hprototype : IsPrototype ts p ts₁)
      (hbody : IsBlock ts₁ body ts') (hothers : IsProgram ts' others) :
      IsProgram ts (.function p body :: others)
  | declaration {word ts p semicolon ts' others} (hword : word.kind = .externWord)
      (hprototype : IsPrototype ts p (semicolon :: ts')) (hsemicolon : semicolon.kind = .semicolon)
      (hothers : IsProgram ts' others) : IsProgram (word :: ts) (.declaration p :: others)

end Parsing

end Fern
