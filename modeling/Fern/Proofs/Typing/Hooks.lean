import Mathlib.Tactic
import Fern.Proofs.Typing.Acceptance

/-!
The checker with hooks.

* `Hooks`: what is done around the judging of each expression, and before each statement of a block.
* `judgeWith`, `checkProgramWith`: the checker with hooks, in any monad that has that of the checker
  in it.
* `judgeWith_plain`, `checkProgramWith_plain`: with hooks that add nothing it is the checker.
-/

namespace Fern.Typing

/-- What is done around the judging of an expression, and before a statement, which may come right
after a `return`. -/
structure Hooks (m : Type → Type) where
  around : Tree → m Ty → m Ty
  before : Bool → Location → m Unit

/-- Nothing is done around an expression, and statements after a `return` are warned of. -/
def Hooks.plain : Hooks Check where
  around _ x := x
  before := warnUnreachable

section With

variable {m : Type → Type} [Monad m] [MonadLiftT Check m]

mutual

/-- The type of an expression, with hooks. -/
def judgeWith (h : Hooks m) (e : Tree) : m Ty :=
  h.around e <| match e with
  | .missing id => (throw ⟨id⟩ : Check Ty)
  | .node id _ (.number _ isFloat) => assign id (if isFloat then .float else .int)
  | .node id _ (.boolean _) => assign id .bool
  | .node id _ (.string _) => assign id .str
  | .node id _ (.char _) => assign id .char
  | .node id l (.var name) => do
    match ← lookupName name with
    | some t => assign id t
    | none => settle id (.refuse (.unknownVariable name) l none)
  | .node id l (.binding name stated value) => do
    let t ← judgeWith h value
    complain (annotationComplaint name stated t l)
    declare name t l
    assign id t
  | .node id _ (.block statements) => do
    pushScope
    let t ← judgeStatementsWith h false .void statements
    popScope
    assign id t
  | .node id _ (.cond condition thenBlock none) => do
    let c ← judgeWith h condition
    complain (conditionComplaint c condition.location)
    let t ← judgeWith h thenBlock
    assign id t
  | .node id l (.cond condition thenBlock (some elseBlock)) => do
    let c ← judgeWith h condition
    complain (conditionComplaint c condition.location)
    let t ← judgeWith h thenBlock
    let e ← judgeWith h elseBlock
    complain (armsComplaint t e l)
    assign id t
  | .node id l (.binary operator left right) => do
    let a ← judgeWith h left
    let b ← judgeWith h right
    settle id (ofBinary operator (left.name?.getD "?") a b l)
  | .node id l (.unary operator operand) => do
    let t ← judgeWith h operand
    settle id (ofUnary operator t l)
  | .node id l (.jump .returnWord none) => do
    settle id (ofReturn (← declaredReturn) .void l)
  | .node id l (.jump .returnWord (some value)) => do
    let t ← judgeWith h value
    settle id (ofReturn (← declaredReturn) t l)
  | .node id l (.jump _ _) => settle id ⟨.void, some ⟨.loopControlOutsideLoop, l, none⟩⟩
  | .node id l (.call callee arguments) => do
    match ← lookupSignature callee with
    | none => settle id (.refuse (.unknownFunction callee) l none)
    | some signature =>
      let expected := signature.parameters.length
      if expected ≠ arguments.length then
        settle id (.refuse (.argumentCountMismatch expected arguments.length) l none)
      else
        let accepted ← judgeArgumentsWith h callee signature.parameters arguments
        assign id (if accepted then signature.returnType else .invalid)
  | .node id l (.subscript operand index) => do
    let a ← judgeWith h operand
    let b ← judgeWith h index
    settle id (ofSubscript a b l index.location)

/-- The type of the last of some statements, with hooks. -/
def judgeStatementsWith (h : Hooks m) (afterReturn : Bool) (last : Ty) : List Tree → m Ty
  | [] => return last
  | statement :: others => do
    h.before afterReturn statement.location
    let t ← judgeWith h statement
    judgeStatementsWith h statement.isReturn t others

/-- Whether arguments are of the types of their parameters, with hooks. -/
def judgeArgumentsWith (h : Hooks m) (callee : String) : List Ty → List Tree → m Bool
  | parameter :: parameters, argument :: arguments => do
    let t ← judgeWith h argument
    complain (argumentComplaint callee parameter t argument.location)
    if t.isInvalid || t ≠ parameter then return false
    else judgeArgumentsWith h callee parameters arguments
  | _, _ => return true

end

/-- Makes a function callable and judges its body, with hooks. -/
def checkFunctionWith (h : Hooks m) (p : Prototype) (body : Tree) : m Unit := do
  register p
  pushScope
  bindParameters p.parameters
  setReturnType (some p.returnType)
  let _ ← judgeWith h body
  setReturnType none
  popScope

/-- Checks functions in order, with hooks. -/
def checkFunctionsWith (h : Hooks m) : List (Prototype × Tree) → m Unit
  | [] => pure ()
  | (p, body) :: fs => do
    checkFunctionWith h p body
    checkFunctionsWith h fs

/-- Checks the declarations and then the functions of a program, with hooks. -/
def checkProgramWith (h : Hooks m) (p : Program) : m Unit := do
  checkDeclarations p.declarations
  checkFunctionsWith h p.bodies

end With

/-! ### Hooks that add nothing -/

lemma judgeStatementsWith_plain {es : List Tree} (h : ∀ e ∈ es, judgeWith .plain e = judge e) :
    ∀ b t, judgeStatementsWith .plain b t es = judgeStatements b t es := by
  induction es with
  | nil =>
      intro b t
      simp only [judgeStatementsWith, judgeStatements]
  | cons e es ih =>
      intro b t
      simp only [judgeStatementsWith, judgeStatements, h e List.mem_cons_self,
        ih fun c hc => h c (List.mem_cons_of_mem _ hc)]
      rfl

lemma judgeArgumentsWith_plain {callee : String} {es : List Tree}
    (h : ∀ e ∈ es, judgeWith .plain e = judge e) :
    ∀ ps, judgeArgumentsWith .plain callee ps es = judgeArguments callee ps es := by
  induction es with
  | nil =>
      intro ps
      cases ps <;> rfl
  | cons e es ih =>
      intro ps
      cases ps with
      | nil => rfl
      | cons p ps =>
          simp only [judgeArgumentsWith, judgeArguments, h e List.mem_cons_self,
            ih fun c hc => h c (List.mem_cons_of_mem _ hc)]
          rfl

/-- With hooks that add nothing, an expression is judged as without hooks. -/
lemma judgeWith_plain (e : Tree) : judgeWith .plain e = judge e := by
  induction e using Tree.childInduction with
  | missing id => rfl
  | node id l shape ih =>
      cases shape with
      | number => rfl
      | boolean => rfl
      | string => rfl
      | char => rfl
      | var => rfl
      | binding name stated value =>
          simp only [judgeWith, judge, ih value (by simp [Shape.children])]
          rfl
      | block statements =>
          have hstatements : ∀ b t,
              judgeStatementsWith .plain b t statements = judgeStatements b t statements :=
            judgeStatementsWith_plain ih
          simp only [judgeWith, judge, hstatements]
          rfl
      | cond condition thenBlock elseBlock =>
          have hcondition := ih condition (by simp [Shape.children])
          have hthen := ih thenBlock (by simp [Shape.children])
          cases elseBlock with
          | none =>
              simp only [judgeWith, judge, hcondition, hthen]
              rfl
          | some elseBlock =>
              have helse := ih elseBlock (by simp [Shape.children])
              simp only [judgeWith, judge, hcondition, hthen, helse]
              rfl
      | binary operator left right =>
          have hleft := ih left (by simp [Shape.children])
          simp only [judgeWith, judge, hleft, ih right (by simp [Shape.children])]
          rfl
      | unary operator operand =>
          simp only [judgeWith, judge, ih operand (by simp [Shape.children])]
          rfl
      | jump operator value =>
          by_cases hop : operator = .returnWord
          · subst hop
            cases value with
            | none => rfl
            | some value =>
                simp only [judgeWith, judge, ih value (by simp [Shape.children])]
                rfl
          · -- the equations of the two functions for other jumps, each with the cases before it
            rw [judgeWith, judge]
            · rfl
            · exact fun h => absurd h hop
            · exact fun _ h => absurd h hop
            · exact fun h => absurd h hop
            · exact fun _ h => absurd h hop
      | call callee arguments =>
          have harguments : ∀ ps,
              judgeArgumentsWith .plain callee ps arguments = judgeArguments callee ps arguments :=
            judgeArgumentsWith_plain ih
          simp only [judgeWith, judge, harguments]
          rfl
      | subscript operand index =>
          have hoperand := ih operand (by simp [Shape.children])
          simp only [judgeWith, judge, hoperand, ih index (by simp [Shape.children])]
          rfl

/-- With hooks that add nothing, a program is checked as without hooks. -/
lemma checkProgramWith_plain (p : Program) : checkProgramWith .plain p = checkProgram p := by
  have hfunctions : ∀ fs, checkFunctionsWith .plain fs = checkFunctions fs := by
    intro fs
    induction fs with
    | nil => rfl
    | cons f fs ih =>
        simp only [checkFunctionsWith, checkFunctionWith, judgeWith_plain, ih]
        rfl
  rw [checkProgramWith, hfunctions]
  rfl

end Fern.Typing
