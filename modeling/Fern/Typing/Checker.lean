import Fern.Program
import Fern.Typing.Rule

/-!
The checker of types.

* `Signature`: the types of the parameters and of the result of a function that can be called.
* `Checker`: the types found so far, the open scopes, the callable functions, the return type of the
  function in hand, and what was found wrong.
* `judge`: the type of an expression, entered in the table under its number.
* `register`, `checkFunction`: what a prototype and a function add.
* `typeCheck`: a whole program: the declarations first, then the functions in order. A function can
  call the declared ones, those before it, and itself.

A complaint does not end the checking. Only an expression that is not stored does.
-/

namespace Fern

namespace Typing

/-- What a call has to know of a function. -/
structure Signature where
  parameters : List Ty
  returnType : Ty
deriving Repr, DecidableEq

/-- The signature that a prototype gives. -/
def Signature.ofPrototype (p : Prototype) : Signature :=
  ⟨p.parameters.map Parameter.type, p.returnType⟩

/-- What the checker knows. -/
structure Checker where
  /-- The types of the expressions by number, invalid where none was found yet. -/
  types : Array Ty
  /-- The names in use. -/
  scopes : Scopes Ty := .empty
  /-- The functions that can be called. -/
  signatures : Bindings Signature := []
  /-- What the function in hand has to return. -/
  returnType : Option Ty := none
  /-- What was found wrong. -/
  log : Log := .empty
deriving Repr, DecidableEq

/-- Nothing known yet of `size` expressions. -/
def Checker.start (size : Nat) (log : Log) : Checker :=
  ⟨Array.replicate size .invalid, .empty, [], none, log⟩

/-- Computations of the checker. They fail at an expression that is not stored. -/
abbrev Check := StateT Checker (Except MissingNode)

/-- Records what is wrong, if anything. -/
def complain : Option Complaint → Check Unit
  | none => pure ()
  | some c => modify fun s => { s with log := c.record s.log }

/-- Enters the type of an expression in the table. -/
def assign (id : NodeId) (t : Ty) : Check Ty := do
  modify fun s => { s with types := s.types.setIfInBounds id t }
  return t

/-- Records what is wrong with an expression, and enters its type. -/
def settle (id : NodeId) (v : Verdict) : Check Ty := do
  complain v.complaint
  assign id v.type

/-- Opens a scope. -/
def pushScope : Check Unit := modify fun s => { s with scopes := s.scopes.push }

/-- Closes the innermost scope. -/
def popScope : Check Unit := modify fun s => { s with scopes := s.scopes.pop }

/-- Binds a name in the innermost scope. -/
def bindName (name : String) (t : Ty) : Check Unit :=
  modify fun s => { s with scopes := s.scopes.bind name t }

/-- Warns of a statement at `l`, if it comes after a `return`. -/
def warnUnreachable (afterReturn : Bool) (l : Location) : Check Unit :=
  if afterReturn then modify fun s => { s with log := s.log.recordWarning .unreachableCode l }
  else pure ()

/-- The type of a name. -/
def lookupName (name : String) : Check (Option Ty) := return (← get).scopes.lookup name

/-- The signature of a function that can be called. -/
def lookupSignature (name : String) : Check (Option Signature) :=
  return (← get).signatures.find? name

/-- What the function in hand has to return. -/
def declaredReturn : Check (Option Ty) := return (← get).returnType

/-- Binds a new name in the innermost scope, where it must not be in use yet. -/
def declare (name : String) (t : Ty) (l : Location) : Check Unit := do
  let used := ((← get).scopes.localLookup name).isSome
  complain (complainIf used (.duplicateVariable name) l none)
  bindName name t

mutual

/-- The type of an expression. -/
def judge : Tree → Check Ty
  | .missing id => throw ⟨id⟩
  | .node id _ (.number _ isFloat) => assign id (if isFloat then .float else .int)
  | .node id _ (.boolean _) => assign id .bool
  | .node id _ (.string _) => assign id .str
  | .node id _ (.char _) => assign id .char
  | .node id l (.var name) => do
    match ← lookupName name with
    | some t => assign id t
    | none => settle id (.refuse (.unknownVariable name) l none)
  | .node id l (.binding name stated value) => do
    let t ← judge value
    complain (annotationComplaint name stated t l)
    declare name t l
    assign id t
  | .node id _ (.block statements) => do
    pushScope
    let t ← judgeStatements false .void statements
    popScope
    assign id t
  | .node id _ (.cond condition thenBlock none) => do
    let c ← judge condition
    complain (conditionComplaint c condition.location)
    let t ← judge thenBlock
    assign id t
  | .node id l (.cond condition thenBlock (some elseBlock)) => do
    let c ← judge condition
    complain (conditionComplaint c condition.location)
    let t ← judge thenBlock
    let e ← judge elseBlock
    complain (armsComplaint t e l)
    assign id t
  | .node id l (.binary operator left right) => do
    let a ← judge left
    let b ← judge right
    settle id (ofBinary operator (left.name?.getD "?") a b l)
  | .node id l (.unary operator operand) => do
    let t ← judge operand
    settle id (ofUnary operator t l)
  | .node id l (.jump .returnWord none) => do
    settle id (ofReturn (← declaredReturn) .void l)
  | .node id l (.jump .returnWord (some value)) => do
    let t ← judge value
    settle id (ofReturn (← declaredReturn) t l)
  | .node id l (.jump _ _) => settle id ⟨.void, some ⟨.loopControlOutsideLoop, l, none⟩⟩
  | .node id l (.call callee arguments) => do
    match ← lookupSignature callee with
    | none => settle id (.refuse (.unknownFunction callee) l none)
    | some signature =>
      let expected := signature.parameters.length
      if expected ≠ arguments.length then
        settle id (.refuse (.argumentCountMismatch expected arguments.length) l none)
      else
        let accepted ← judgeArguments callee signature.parameters arguments
        assign id (if accepted then signature.returnType else .invalid)
  | .node id l (.subscript operand index) => do
    let a ← judge operand
    let b ← judge index
    settle id (ofSubscript a b l index.location)

/-- The type of the last of some statements, or `last` if there are none. A statement right after a
`return` is warned of. -/
def judgeStatements (afterReturn : Bool) (last : Ty) : List Tree → Check Ty
  | [] => return last
  | statement :: others => do
    warnUnreachable afterReturn statement.location
    let t ← judge statement
    judgeStatements statement.isReturn t others

/-- Whether arguments are of the types of their parameters. The first that is not ends the checking
of the call. -/
def judgeArguments (callee : String) : List Ty → List Tree → Check Bool
  | parameter :: parameters, argument :: arguments => do
    let t ← judge argument
    complain (argumentComplaint callee parameter t argument.location)
    if t.isInvalid || t ≠ parameter then return false
    else judgeArguments callee parameters arguments
  | _, _ => return true

end

/-- Makes a function callable. A name that is taken is reported, and then stands for the new
function. -/
def register (p : Prototype) : Check Unit := do
  let used := (← lookupSignature p.name).isSome
  complain (complainIf used (.duplicateFunction p.name) p.location none)
  modify fun s => { s with signatures := s.signatures.set p.name (.ofPrototype p) }

/-- Sets what the function in hand has to return. -/
def setReturnType (t : Option Ty) : Check Unit := modify fun s => { s with returnType := t }

/-- Binds the parameters of a function. -/
def bindParameters : List Parameter → Check Unit
  | [] => pure ()
  | p :: ps => do
    bindName p.name p.type
    bindParameters ps

/-- Makes a function callable and judges its body in a scope with its parameters. -/
def checkFunction (p : Prototype) (body : Tree) : Check Unit := do
  register p
  pushScope
  bindParameters p.parameters
  setReturnType (some p.returnType)
  let _ ← judge body
  setReturnType none
  popScope

/-- Makes declared functions callable. -/
def checkDeclarations : List Prototype → Check Unit
  | [] => pure ()
  | p :: ps => do
    register p
    checkDeclarations ps

/-- Checks functions in order, with their bodies. -/
def checkFunctions : List (Prototype × Tree) → Check Unit
  | [] => pure ()
  | (p, body) :: fs => do
    checkFunction p body
    checkFunctions fs

/-- Checks the declarations and then the functions of a program. -/
def checkProgram (p : Program) : Check Unit := do
  checkDeclarations p.declarations
  checkFunctions (p.functions.map fun f => (f.prototype, p.body f))

end Typing

open Typing

/-- The types of all expressions of a program, by number, and what is wrong with it. -/
def typeCheck (p : Program) (log : Log) : Except MissingNode (Array Ty × Log) :=
  match (checkProgram p).run (.start p.arena.size log) with
  | .ok (_, s) => .ok (s.types, s.log)
  | .error e => .error e

end Fern
