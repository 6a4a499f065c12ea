import Mathlib.Tactic
import Fern.Typing.Checker

/-!
What a run of the checker does, form by form.

* `Checker.typed`, `Checker.complained`, `Checker.settled`, `Checker.declaring`, `Checker.warned`,
  `Checker.opened`, `Checker.closed`: what the elementary steps make of the state.
* `judge_binary_eq_ok` and its companions: a run on a form with subexpressions is made of the runs
  on these, one after the other, and of elementary steps.
* `exists_typed_of_judge`: the last step enters the type of the whole.
-/

namespace Fern.Typing

/-! ### Elementary steps -/

namespace Checker

/-- The state in which an expression has got its type. -/
def typed (id : NodeId) (t : Ty) (s : Checker) : Checker :=
  { s with types := s.types.setIfInBounds id t }

/-- The state in which a complaint, if there is one, has been recorded. -/
def complained (c : Option Complaint) (s : Checker) : Checker :=
  { s with log := c.elim s.log (·.record s.log) }

/-- The state in which an expression has been settled. -/
def settled (id : NodeId) (v : Verdict) (s : Checker) : Checker :=
  (s.complained v.complaint).typed id v.type

/-- The state in which a name has been bound in the innermost scope. -/
def bound (name : String) (t : Ty) (s : Checker) : Checker :=
  { s with scopes := s.scopes.bind name t }

/-- The complaint about a name that is taken in the innermost scope. -/
def duplicate (name : String) (l : Location) (s : Checker) : Option Complaint :=
  complainIf (s.scopes.localLookup name).isSome (.duplicateVariable name) l none

/-- The state in which a name has been declared at `l`. -/
def declaring (name : String) (t : Ty) (l : Location) (s : Checker) : Checker :=
  (s.complained (s.duplicate name l)).bound name t

/-- The state in which a statement has been warned of, if it comes after a `return`. -/
def warned (afterReturn : Bool) (l : Location) (s : Checker) : Checker :=
  if afterReturn then { s with log := s.log.recordWarning .unreachableCode l } else s

/-- The state with one more scope. -/
def opened (s : Checker) : Checker := { s with scopes := s.scopes.push }

/-- The state with one scope fewer. -/
def closed (s : Checker) : Checker := { s with scopes := s.scopes.pop }

end Checker

section Steps

variable {α β : Type} {id : NodeId} {l : Location} {name : String} {t u : Ty} {s s' : Checker}

lemma bind_eq_ok {x : Check α} {f : α → Check β} {r : β × Checker} :
    (x >>= f) s = .ok r ↔ ∃ a s₁, x s = .ok (a, s₁) ∧ f a s₁ = .ok r := by
  simp only [bind, StateT.bind, Except.bind]
  cases hx : x s with
  | error e => simp
  | ok p =>
      obtain ⟨a, s₁⟩ := p
      simp

lemma pure_eq_ok {a b : α} : (pure a : Check α) s = .ok (b, s') ↔ b = a ∧ s' = s := by
  show Except.ok (a, s) = .ok (b, s') ↔ _
  simp [eq_comm]

lemma get_eq_ok {s₁ : Checker} : (get : Check Checker) s = .ok (s₁, s') ↔ s₁ = s ∧ s' = s := by
  simp [get, getThe, MonadStateOf.get, StateT.get, pure, Except.pure, eq_comm]

lemma modify_eq_ok {f : Checker → Checker} {x : PUnit} :
    (modify f : Check PUnit) s = .ok (x, s') ↔ s' = f s := by
  simp [modify, modifyGet, MonadStateOf.modifyGet, StateT.modifyGet, pure, Except.pure, eq_comm]

lemma complain_eq_ok {c : Option Complaint} {x : Unit} :
    complain c s = .ok (x, s') ↔ s' = s.complained c := by
  cases c with
  | none => exact pure_eq_ok.trans (by simp [Checker.complained])
  | some c => exact modify_eq_ok

lemma assign_eq_ok : assign id u s = .ok (t, s') ↔ t = u ∧ s' = s.typed id u := by
  simp only [assign, bind_eq_ok, modify_eq_ok, pure_eq_ok, exists_eq_left, exists_const]
  rfl

lemma settle_eq_ok {v : Verdict} :
    settle id v s = .ok (t, s') ↔ t = v.type ∧ s' = s.settled id v := by
  simp only [settle, bind_eq_ok, complain_eq_ok, assign_eq_ok, exists_eq_left, exists_const]
  rfl

lemma declare_eq_ok {x : Unit} :
    declare name t l s = .ok (x, s') ↔ s' = s.declaring name t l := by
  simp only [declare, bindName, bind_eq_ok, get_eq_ok, complain_eq_ok, modify_eq_ok, and_assoc,
    exists_and_left, exists_eq_left, exists_const]
  rfl

lemma warnUnreachable_eq_ok {b : Bool} {x : Unit} :
    warnUnreachable b l s = .ok (x, s') ↔ s' = s.warned b l := by
  cases b with
  | false => exact pure_eq_ok.trans (by simp [Checker.warned])
  | true => exact modify_eq_ok

lemma pushScope_eq_ok {x : Unit} : pushScope s = .ok (x, s') ↔ s' = s.opened := modify_eq_ok

lemma popScope_eq_ok {x : Unit} : popScope s = .ok (x, s') ↔ s' = s.closed := modify_eq_ok

lemma lookupName_eq_ok {o : Option Ty} :
    lookupName name s = .ok (o, s') ↔ o = s.scopes.lookup name ∧ s' = s := by
  simp only [lookupName, bind_eq_ok, get_eq_ok, pure_eq_ok, and_assoc, exists_and_left,
    exists_eq_left]

lemma lookupSignature_eq_ok {o : Option Signature} :
    lookupSignature name s = .ok (o, s') ↔ o = s.signatures.find? name ∧ s' = s := by
  simp only [lookupSignature, bind_eq_ok, get_eq_ok, pure_eq_ok, and_assoc, exists_and_left,
    exists_eq_left]

lemma declaredReturn_eq_ok {o : Option Ty} :
    declaredReturn s = .ok (o, s') ↔ o = s.returnType ∧ s' = s := by
  simp only [declaredReturn, bind_eq_ok, get_eq_ok, pure_eq_ok, and_assoc, exists_and_left,
    exists_eq_left]

end Steps

/-! ### Runs on the forms of expressions -/

section Forms

variable {id : NodeId} {l : Location} {s s' : Checker} {t : Ty}

-- states the equations of the three once, for all the lemmas below
attribute [local simp] judge judgeStatements judgeArguments

lemma judge_missing : judge (.missing id) s = .error ⟨id⟩ := by
  rw [judge]
  rfl

lemma judge_number_eq_ok {value : String} {isFloat : Bool} :
    judge (.node id l (.number value isFloat)) s = .ok (t, s') ↔
      t = (if isFloat then .float else .int) ∧
        s' = s.typed id (if isFloat then .float else .int) := by
  rw [judge, assign_eq_ok]

lemma judge_boolean_eq_ok {value : Bool} :
    judge (.node id l (.boolean value)) s = .ok (t, s') ↔ t = .bool ∧ s' = s.typed id .bool := by
  rw [judge, assign_eq_ok]

lemma judge_string_eq_ok {value : String} :
    judge (.node id l (.string value)) s = .ok (t, s') ↔ t = .str ∧ s' = s.typed id .str := by
  rw [judge, assign_eq_ok]

lemma judge_char_eq_ok {value : String} :
    judge (.node id l (.char value)) s = .ok (t, s') ↔ t = .char ∧ s' = s.typed id .char := by
  rw [judge, assign_eq_ok]

lemma judge_bound_eq_ok {name : String} {u : Ty} (h : s.scopes.lookup name = some u) :
    judge (.node id l (.var name)) s = .ok (t, s') ↔ t = u ∧ s' = s.typed id u := by
  simp only [judge, bind_eq_ok, lookupName_eq_ok, and_assoc, exists_and_left, exists_eq_left, h,
    assign_eq_ok]

lemma judge_unbound_eq_ok {name : String} (h : s.scopes.lookup name = none) :
    judge (.node id l (.var name)) s = .ok (t, s') ↔
      t = .invalid ∧ s' = s.settled id (.refuse (.unknownVariable name) l none) := by
  simp only [judge, bind_eq_ok, lookupName_eq_ok, and_assoc, exists_and_left, exists_eq_left, h,
    settle_eq_ok]
  rfl

lemma judge_binding_eq_ok {name : String} {stated : Option Ty} {value : Tree} :
    judge (.node id l (.binding name stated value)) s = .ok (t, s') ↔
      ∃ u s₁, judge value s = .ok (u, s₁) ∧ t = u ∧
        s' = ((s₁.complained (annotationComplaint name stated u l)).declaring name u l).typed
          id u := by
  simp only [judge, bind_eq_ok, complain_eq_ok, declare_eq_ok, assign_eq_ok, exists_eq_left,
    exists_const]

lemma judge_block_eq_ok {statements : List Tree} :
    judge (.node id l (.block statements)) s = .ok (t, s') ↔
      ∃ u s₁, judgeStatements false .void statements s.opened = .ok (u, s₁) ∧ t = u ∧
        s' = s₁.closed.typed id u := by
  simp only [judge, bind_eq_ok, pushScope_eq_ok, popScope_eq_ok, assign_eq_ok, exists_eq_left,
    exists_const]

lemma judge_cond_eq_ok {condition thenBlock : Tree} :
    judge (.node id l (.cond condition thenBlock none)) s = .ok (t, s') ↔
      ∃ c s₁, judge condition s = .ok (c, s₁) ∧
        ∃ u s₂, judge thenBlock (s₁.complained (conditionComplaint c condition.location)) =
          .ok (u, s₂) ∧ t = u ∧ s' = s₂.typed id u := by
  simp only [judge, bind_eq_ok, complain_eq_ok, assign_eq_ok, exists_eq_left, exists_const]

lemma judge_condElse_eq_ok {condition thenBlock elseBlock : Tree} :
    judge (.node id l (.cond condition thenBlock (some elseBlock))) s = .ok (t, s') ↔
      ∃ c s₁, judge condition s = .ok (c, s₁) ∧
        ∃ u s₂, judge thenBlock (s₁.complained (conditionComplaint c condition.location)) =
          .ok (u, s₂) ∧
        ∃ e s₃, judge elseBlock s₂ = .ok (e, s₃) ∧ t = u ∧
          s' = (s₃.complained (armsComplaint u e l)).typed id u := by
  simp only [judge, bind_eq_ok, complain_eq_ok, assign_eq_ok, exists_eq_left, exists_const]

lemma judge_binary_eq_ok {operator : Token.Kind} {left right : Tree} :
    judge (.node id l (.binary operator left right)) s = .ok (t, s') ↔
      ∃ a s₁, judge left s = .ok (a, s₁) ∧ ∃ b s₂, judge right s₁ = .ok (b, s₂) ∧
        t = (ofBinary operator (left.name?.getD "?") a b l).type ∧
        s' = s₂.settled id (ofBinary operator (left.name?.getD "?") a b l) := by
  simp only [judge, bind_eq_ok, settle_eq_ok]

lemma judge_unary_eq_ok {operator : Token.Kind} {operand : Tree} :
    judge (.node id l (.unary operator operand)) s = .ok (t, s') ↔
      ∃ a s₁, judge operand s = .ok (a, s₁) ∧
        t = (ofUnary operator a l).type ∧ s' = s₁.settled id (ofUnary operator a l) := by
  simp only [judge, bind_eq_ok, settle_eq_ok]

lemma judge_bareReturn_eq_ok :
    judge (.node id l (.jump .returnWord none)) s = .ok (t, s') ↔
      t = (ofReturn s.returnType .void l).type ∧
        s' = s.settled id (ofReturn s.returnType .void l) := by
  simp only [judge, bind_eq_ok, declaredReturn_eq_ok, settle_eq_ok, and_assoc, exists_and_left,
    exists_eq_left]

lemma judge_valueReturn_eq_ok {value : Tree} :
    judge (.node id l (.jump .returnWord (some value))) s = .ok (t, s') ↔
      ∃ a s₁, judge value s = .ok (a, s₁) ∧
        t = (ofReturn s₁.returnType a l).type ∧
        s' = s₁.settled id (ofReturn s₁.returnType a l) := by
  simp only [judge, bind_eq_ok, declaredReturn_eq_ok, settle_eq_ok, and_assoc, exists_and_left,
    exists_eq_left]

lemma judge_loopJump_eq_ok {operator : Token.Kind} {value : Option Tree}
    (h : operator ≠ .returnWord) :
    judge (.node id l (.jump operator value)) s = .ok (t, s') ↔
      t = .void ∧ s' = s.settled id ⟨.void, some ⟨.loopControlOutsideLoop, l, none⟩⟩ := by
  rw [judge, settle_eq_ok]
  · exact fun hr => absurd hr h
  · exact fun _ hr => absurd hr h

lemma judge_unknownCall_eq_ok {callee : String} {arguments : List Tree}
    (h : s.signatures.find? callee = none) :
    judge (.node id l (.call callee arguments)) s = .ok (t, s') ↔
      t = .invalid ∧ s' = s.settled id (.refuse (.unknownFunction callee) l none) := by
  simp only [judge, bind_eq_ok, lookupSignature_eq_ok, and_assoc, exists_and_left, exists_eq_left,
    h, settle_eq_ok]
  rfl

lemma judge_miscountedCall_eq_ok {callee : String} {arguments : List Tree} {g : Signature}
    (h : s.signatures.find? callee = some g) (hcount : g.parameters.length ≠ arguments.length) :
    judge (.node id l (.call callee arguments)) s = .ok (t, s') ↔
      t = .invalid ∧ s' = s.settled id (.refuse
        (.argumentCountMismatch g.parameters.length arguments.length) l none) := by
  simp only [judge, bind_eq_ok, lookupSignature_eq_ok, and_assoc, exists_and_left, exists_eq_left,
    h, if_pos hcount, settle_eq_ok]
  rfl

lemma judge_call_eq_ok {callee : String} {arguments : List Tree} {g : Signature}
    (h : s.signatures.find? callee = some g) (hcount : g.parameters.length = arguments.length) :
    judge (.node id l (.call callee arguments)) s = .ok (t, s') ↔
      ∃ b s₁, judgeArguments callee g.parameters arguments s = .ok (b, s₁) ∧
        t = (if b then g.returnType else .invalid) ∧
        s' = s₁.typed id (if b then g.returnType else .invalid) := by
  simp only [judge, bind_eq_ok, lookupSignature_eq_ok, and_assoc, exists_and_left, exists_eq_left,
    h, if_neg (not_not_intro hcount), assign_eq_ok]

lemma judge_subscript_eq_ok {operand index : Tree} :
    judge (.node id l (.subscript operand index)) s = .ok (t, s') ↔
      ∃ a s₁, judge operand s = .ok (a, s₁) ∧ ∃ b s₂, judge index s₁ = .ok (b, s₂) ∧
        t = (ofSubscript a b l index.location).type ∧
        s' = s₂.settled id (ofSubscript a b l index.location) := by
  simp only [judge, bind_eq_ok, settle_eq_ok]

lemma judgeStatements_nil_eq_ok {b : Bool} {u : Ty} :
    judgeStatements b u [] s = .ok (t, s') ↔ t = u ∧ s' = s := by
  rw [judgeStatements, pure_eq_ok]

lemma judgeStatements_cons_eq_ok {b : Bool} {u : Ty} {statement : Tree} {others : List Tree} :
    judgeStatements b u (statement :: others) s = .ok (t, s') ↔
      ∃ v s₁, judge statement (s.warned b statement.location) = .ok (v, s₁) ∧
        judgeStatements statement.isReturn v others s₁ = .ok (t, s') := by
  simp only [judgeStatements, bind_eq_ok, warnUnreachable_eq_ok, exists_eq_left, exists_const]

lemma judgeArguments_nil_eq_ok {callee : String} {b : Bool} :
    judgeArguments callee [] [] s = .ok (b, s') ↔ b = true ∧ s' = s := by
  rw [judgeArguments, pure_eq_ok]
  exact fun _ _ _ _ h => absurd h (by simp)

lemma judgeArguments_cons_eq_ok {callee : String} {b : Bool} {parameter : Ty} {argument : Tree}
    {parameters : List Ty} {arguments : List Tree} :
    judgeArguments callee (parameter :: parameters) (argument :: arguments) s = .ok (b, s') ↔
      ∃ u s₁, judge argument s = .ok (u, s₁) ∧
        if u.isInvalid || u ≠ parameter then
          b = false ∧ s' = s₁.complained (argumentComplaint callee parameter u argument.location)
        else
          judgeArguments callee parameters arguments
            (s₁.complained (argumentComplaint callee parameter u argument.location)) =
              .ok (b, s') := by
  simp only [judgeArguments, bind_eq_ok, complain_eq_ok, exists_eq_left, exists_const]
  refine exists_congr fun u => exists_congr fun s₁ => and_congr_right fun _ => ?_
  split
  · exact pure_eq_ok
  · rfl

/-- Every run ends by entering the type of the whole expression. -/
lemma exists_typed_of_judge {e : Tree} (h : judge e s = .ok (t, s')) :
    ∃ s₁, s' = Checker.typed e.id t s₁ := by
  cases e with
  | missing id =>
      rw [judge_missing] at h
      cases h
  | node id l shape =>
      cases shape with
      | number =>
          obtain ⟨rfl, rfl⟩ := judge_number_eq_ok.mp h
          exact ⟨_, rfl⟩
      | boolean =>
          obtain ⟨rfl, rfl⟩ := judge_boolean_eq_ok.mp h
          exact ⟨_, rfl⟩
      | string =>
          obtain ⟨rfl, rfl⟩ := judge_string_eq_ok.mp h
          exact ⟨_, rfl⟩
      | char =>
          obtain ⟨rfl, rfl⟩ := judge_char_eq_ok.mp h
          exact ⟨_, rfl⟩
      | var name =>
          cases hlookup : s.scopes.lookup name with
          | some u =>
              obtain ⟨rfl, rfl⟩ := (judge_bound_eq_ok hlookup).mp h
              exact ⟨_, rfl⟩
          | none =>
              obtain ⟨rfl, rfl⟩ := (judge_unbound_eq_ok hlookup).mp h
              exact ⟨_, rfl⟩
      | binding =>
          obtain ⟨u, s₁, -, rfl, rfl⟩ := judge_binding_eq_ok.mp h
          exact ⟨_, rfl⟩
      | block =>
          obtain ⟨u, s₁, -, rfl, rfl⟩ := judge_block_eq_ok.mp h
          exact ⟨_, rfl⟩
      | cond condition thenBlock elseBlock =>
          cases elseBlock with
          | none =>
              obtain ⟨c, s₁, -, u, s₂, -, rfl, rfl⟩ := judge_cond_eq_ok.mp h
              exact ⟨_, rfl⟩
          | some elseBlock =>
              obtain ⟨c, s₁, -, u, s₂, -, e, s₃, -, rfl, rfl⟩ := judge_condElse_eq_ok.mp h
              exact ⟨_, rfl⟩
      | binary =>
          obtain ⟨a, s₁, -, b, s₂, -, rfl, rfl⟩ := judge_binary_eq_ok.mp h
          exact ⟨_, rfl⟩
      | unary =>
          obtain ⟨a, s₁, -, rfl, rfl⟩ := judge_unary_eq_ok.mp h
          exact ⟨_, rfl⟩
      | jump operator value =>
          by_cases hop : operator = .returnWord
          · subst hop
            cases value with
            | none =>
                obtain ⟨rfl, rfl⟩ := judge_bareReturn_eq_ok.mp h
                exact ⟨_, rfl⟩
            | some value =>
                obtain ⟨a, s₁, -, rfl, rfl⟩ := judge_valueReturn_eq_ok.mp h
                exact ⟨_, rfl⟩
          · obtain ⟨rfl, rfl⟩ := (judge_loopJump_eq_ok hop).mp h
            exact ⟨_, rfl⟩
      | call callee arguments =>
          cases hg : s.signatures.find? callee with
          | none =>
              obtain ⟨rfl, rfl⟩ := (judge_unknownCall_eq_ok hg).mp h
              exact ⟨_, rfl⟩
          | some g =>
              by_cases hcount : g.parameters.length = arguments.length
              · obtain ⟨b, s₁, -, rfl, rfl⟩ := (judge_call_eq_ok hg hcount).mp h
                exact ⟨_, rfl⟩
              · obtain ⟨rfl, rfl⟩ := (judge_miscountedCall_eq_ok hg hcount).mp h
                exact ⟨_, rfl⟩
      | subscript =>
          obtain ⟨a, s₁, -, b, s₂, -, rfl, rfl⟩ := judge_subscript_eq_ok.mp h
          exact ⟨_, rfl⟩

end Forms

end Fern.Typing
