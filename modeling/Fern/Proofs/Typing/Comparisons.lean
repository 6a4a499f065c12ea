import Fern.Proofs.Parsing.Layout
import Fern.Proofs.Typing.Callable
import Fern.Proofs.Typing.Parsed
import Fern.Proofs.Typing.Unreachable

/-!
Errors about types that do not go together, and that no failure leads to such an error.

* `Mismatch`: types that do not go together, with the problem and the note that they are reported
  as.
* `Compares`: in a run on an expression the types of its parts are compared.
* `Program.Judges.confined`: in a body the declared types are those of values.
* `Complains.exists_mismatch_or`: a check of an expression complains of a mismatch of types of
  values, or without a note.
* `JudgesAll`, `log_of_invalid_operand`: where an operand has failed, the check of an operator, of a
  `return` or of an index leaves what was found as the operands leave it.
* `mismatches_of_typeCheck`: **no failure leads to another error**.
-/

namespace Fern

/-- The problem is that some types do not go together. -/
def Problem.isMismatch : Problem → Bool
  | .annotationMismatch | .nonBoolCondition | .ifBranchMismatch | .reassignTypeMismatch
  | .comparisonTypeMismatch | .arithmeticTypeMismatch | .expectedNumericOperand
  | .expectedBoolOperand | .returnTypeMismatch | .argumentTypeMismatch | .notIndexable
  | .nonIntegerIndex => true
  | _ => false

/-- An operator with its operands, a `return` or an index. -/
def Tree.takesOperands : Tree → Bool
  | node _ _ (.binary _ _ _) | node _ _ (.unary _ _) | node _ _ (.subscript _ _) => true
  | node _ _ (.jump operator _) => operator = .returnWord
  | _ => false

namespace Typing

/-! ### Mismatches -/

/-- Types that do not go together. -/
inductive Mismatch where
  | stated (name : String) (stated value : Ty)
  | condition (condition : Ty)
  | arms (thenType elseType : Ty)
  | assignment (target : String) (left right : Ty)
  | comparison (left right : Ty)
  | arithmetic (left right : Ty)
  | sign (operand : Ty)
  | negation (operand : Ty)
  | returned (declared value : Ty)
  | argument (callee : String) (parameter argument : Ty)
  | indexed (operand index : Ty)
  | index (operand index : Ty)
deriving Repr, DecidableEq

namespace Mismatch

/-- The types that are compared. -/
def types : Mismatch → List Ty
  | condition t | sign t | negation t => [t]
  | stated _ t u | arms t u | assignment _ t u | comparison t u | arithmetic t u
  | returned t u | argument _ t u | indexed t u | index t u => [t, u]

/-- The problem that a mismatch is. -/
def problem : Mismatch → Problem
  | stated .. => .annotationMismatch
  | condition _ => .nonBoolCondition
  | arms .. => .ifBranchMismatch
  | assignment .. => .reassignTypeMismatch
  | comparison .. => .comparisonTypeMismatch
  | arithmetic .. => .arithmeticTypeMismatch
  | sign _ => .expectedNumericOperand
  | negation _ => .expectedBoolOperand
  | returned .. => .returnTypeMismatch
  | argument .. => .argumentTypeMismatch
  | indexed .. => .notIndexable
  | index .. => .nonIntegerIndex

/-- The note on a mismatch, which prints types that are compared. -/
def note : Mismatch → Option String
  | stated name t u => some ("variable `" ++ name ++ "` annotated as " ++ t.text ++
      ", value is " ++ u.text)
  | condition t => some ("condition type is " ++ t.text)
  | arms t u => some ("then block is " ++ t.text ++ ", else block is " ++ u.text)
  | assignment target t u => some ("variable `" ++ target ++ "` expected type " ++ t.text ++
      ", got " ++ u.text)
  | comparison t u | arithmetic t u => some ("LHS is " ++ t.text ++ ", RHS is " ++ u.text)
  | sign _ | negation _ | index .. => none
  | returned t u => some ("function returns " ++ t.text ++ ", value type is " ++ u.text)
  | argument callee t u => some ("parameter of `" ++ callee ++ "` expects " ++ t.text ++
      ", got " ++ u.text)
  | indexed t _ => some ("operand type is " ++ t.text)

/-- The complaint about a mismatch at `l`. -/
def complaint (m : Mismatch) (l : Location) : Complaint := ⟨m.problem, l, m.note⟩

/-- All types that are compared are those of values. -/
def OfValues (m : Mismatch) : Prop := ∀ t ∈ m.types, t.isInvalid = false

/-- What an operator compares. -/
def ofOperands (operator : Token.Kind) (target : String) (left right : Ty) : Mismatch :=
  if operator = .equal ∨ operator = .colonEqual then .assignment target left right
  else if isComparison operator then .comparison left right
  else .arithmetic left right

/-- What an operator in front of its operand compares. -/
def ofOperand (operator : Token.Kind) (operand : Ty) : Mismatch :=
  if operator = .minus then .sign operand else .negation operand

end Mismatch

/-- In a run on an expression from a given state, the types of its parts are compared. If they do
not go together, this is reported at the place. -/
inductive Compares : Tree → Checker → Mismatch → Location → Prop
  | stated {id l name u value s t s₁} (hv : judge value s = .ok (t, s₁)) :
      Compares (.node id l (.binding name (some u) value)) s (.stated name u t) l
  | condition {id l condition thenBlock elseBlock s t s₁} (hc : judge condition s = .ok (t, s₁)) :
      Compares (.node id l (.cond condition thenBlock elseBlock)) s (.condition t)
        condition.location
  | arms {id l condition thenBlock elseBlock s t s₁ u s₂ v s₃}
      (hc : judge condition s = .ok (t, s₁))
      (ht : judge thenBlock (s₁.complained (conditionComplaint t condition.location))
        = .ok (u, s₂))
      (he : judge elseBlock s₂ = .ok (v, s₃)) :
      Compares (.node id l (.cond condition thenBlock (some elseBlock))) s (.arms u v) l
  | binary {id l operator left right s a s₁ b s₂} (ha : judge left s = .ok (a, s₁))
      (hb : judge right s₁ = .ok (b, s₂)) :
      Compares (.node id l (.binary operator left right)) s
        (.ofOperands operator (left.name?.getD "?") a b) l
  | unary {id l operator operand s a s₁} (ha : judge operand s = .ok (a, s₁)) :
      Compares (.node id l (.unary operator operand)) s (.ofOperand operator a) l
  | bareReturn {id l s u} (hu : s.returnType = some u) :
      Compares (.node id l (.jump .returnWord none)) s (.returned u .void) l
  | valueReturn {id l value s a s₁ u} (ha : judge value s = .ok (a, s₁))
      (hu : s₁.returnType = some u) :
      Compares (.node id l (.jump .returnWord (some value))) s (.returned u a) l
  | argument {id l callee arguments s g p e r t r'} (hg : s.signatures.find? callee = some g)
      (hcount : g.parameters.length = arguments.length)
      (he : TurnsToArgument g.parameters arguments s p e r) (ht : judge e r = .ok (t, r')) :
      Compares (.node id l (.call callee arguments)) s (.argument callee p t) e.location
  | indexed {id l operand index s a s₁ b s₂} (ha : judge operand s = .ok (a, s₁))
      (hb : judge index s₁ = .ok (b, s₂)) :
      Compares (.node id l (.subscript operand index)) s (.indexed a b) l
  | index {id l operand index s a s₁ b s₂} (ha : judge operand s = .ok (a, s₁))
      (hb : judge index s₁ = .ok (b, s₂)) :
      Compares (.node id l (.subscript operand index)) s (.index a b) index.location

/-! ### What the rules complain of -/

section Rules

variable {a b u : Ty} {l l' : Location} {k : Complaint}

/-- A complaint that is made only if a type is that of a value. -/
lemma guarded_of_complainIf {c : Bool} {p : Problem} {note : Option String}
    (h : complainIf (!a.isInvalid && c) p l note = some k) :
    a.isInvalid = false ∧ k = ⟨p, l, note⟩ := by
  obtain ⟨hc, rfl⟩ := complainIf_eq_some_iff.mp h
  simp only [Bool.and_eq_true, Bool.not_eq_true'] at hc
  exact ⟨hc.1, rfl⟩

/-- A complaint that is made only if two types are those of values. -/
lemma guarded_of_complainIf_two {c : Bool} {p : Problem} {note : Option String}
    (h : complainIf (!a.isInvalid && !b.isInvalid && c) p l note = some k) :
    (a.isInvalid = false ∧ b.isInvalid = false) ∧ k = ⟨p, l, note⟩ := by
  obtain ⟨hc, rfl⟩ := complainIf_eq_some_iff.mp h
  simp only [Bool.and_eq_true, Bool.not_eq_true'] at hc
  exact ⟨hc.1, rfl⟩

/-- Each operator of a program compares or computes. -/
lemma isComparison_or_isArithmetic :
    ∀ o ∈ Tree.binaryOperators, isComparison o = true ∨ isArithmetic o = true := by
  decide

/-- An operator of a program complains of a mismatch, and only if both operands have the types of
values. -/
lemma mismatch_of_ofBinary {operator : Token.Kind} {target : String}
    (hknown : operator = .equal ∨ operator ∈ Tree.binaryOperators)
    (h : (ofBinary operator target a b l).complaint = some k) :
    (a.isInvalid = false ∧ b.isInvalid = false) ∧
      k = (Mismatch.ofOperands operator target a b).complaint l := by
  unfold ofBinary at h
  unfold Mismatch.ofOperands
  split_ifs at h ⊢ with hassign hcomp harith
  · exact guarded_of_complainIf_two h
  · exact guarded_of_complainIf_two h
  · unfold ofArithmetic at h
    split_ifs at h with hinvalid
    · cases h
    all_goals
      obtain ⟨-, rfl⟩ := complainIf_eq_some_iff.mp h
      exact ⟨by simpa using hinvalid, rfl⟩
  · rcases hknown with rfl | hknown
    · exact absurd (.inl rfl) hassign
    · rcases isComparison_or_isArithmetic operator hknown with h | h
      · exact absurd h hcomp
      · exact absurd h harith

lemma mismatch_of_ofUnary {operator : Token.Kind} (hknown : operator = .minus ∨ operator = .bang)
    (h : (ofUnary operator a l).complaint = some k) :
    a.isInvalid = false ∧ k = (Mismatch.ofOperand operator a).complaint l := by
  unfold ofUnary at h
  split at h
  · cases h
  · next hinvalid =>
    refine ⟨Bool.eq_false_iff.mpr hinvalid, ?_⟩
    rcases hknown with rfl | rfl
    all_goals
      simp only at h
      split_ifs at h <;> cases h
      rfl

lemma mismatch_of_ofReturn (h : (ofReturn (some u) a l).complaint = some k) :
    a.isInvalid = false ∧ k = (Mismatch.returned u a).complaint l :=
  guarded_of_complainIf h

lemma mismatch_of_ofSubscript (h : (ofSubscript a b l l').complaint = some k) :
    (a.isInvalid = false ∧ b.isInvalid = false) ∧
      (k = (Mismatch.indexed a b).complaint l ∨ k = (Mismatch.index a b).complaint l') := by
  unfold ofSubscript at h
  split_ifs at h with hinvalid
  · cases h
  · cases h
    exact ⟨by simpa using hinvalid, .inl rfl⟩
  · cases h
    exact ⟨by simpa using hinvalid, .inr rfl⟩
  · cases h

end Rules

namespace Mismatch

variable {operator : Token.Kind} {target : String} {a b : Ty}

lemma types_ofOperands : (ofOperands operator target a b).types = [a, b] := by
  unfold ofOperands
  split_ifs <;> rfl

lemma types_ofOperand : (ofOperand operator a).types = [a] := by
  unfold ofOperand
  split_ifs <;> rfl

lemma OfValues.of_one {m : Mismatch} (hm : m.types = [a]) (ha : a.isInvalid = false) :
    m.OfValues := by
  simpa [OfValues, hm] using ha

lemma OfValues.of_two {m : Mismatch} (hm : m.types = [a, b])
    (h : a.isInvalid = false ∧ b.isInvalid = false) : m.OfValues := by
  simpa [OfValues, hm] using h

end Mismatch

/-! ### Within a function -/

/-- The declared return type is that of a value, and so are the types of the parameters of all
functions that can be called. -/
structure Checker.Confined (s : Checker) : Prop where
  returnType : ∃ u, s.returnType = some u ∧ u.isInvalid = false
  parameters : ∀ {name g}, s.signatures.find? name = some g → ∀ t ∈ g.parameters,
    t.isInvalid = false

lemma TurnsToArgument.mem_parameters {ps : List Ty} {es : List Tree} {s r : Checker} {p : Ty}
    {c : Tree} (h : TurnsToArgument ps es s p c r) : p ∈ ps := by
  induction h with
  | first => exact List.mem_cons_self
  | later _ _ _ ih => exact List.mem_cons_of_mem _ ih

section Checks

variable {u : Tree} {r r' : Checker} {k : Complaint} {t : Ty}

/-- **Mismatches of values.** The check of an expression of a program complains of a mismatch of
types of values, with the note on it, or of something else, without a note. -/
lemma Complains.exists_mismatch_or (h : Complains u r k) (hu : u.Grammatical) (hr : r.Confined) :
    (∃ m, Compares u r m k.location ∧ m.OfValues ∧ k = m.complaint k.location) ∨
      k.problem.isMismatch = false ∧ k.note = none := by
  obtain ⟨v, hv, hdeclared⟩ := hr.returnType
  cases h with
  | unknownVariable => exact .inr ⟨rfl, rfl⟩
  | @stated _ _ _ stated _ _ _ _ _ hvalue h =>
      cases stated with
      | none => cases h
      | some w =>
          obtain ⟨ht, rfl⟩ := guarded_of_complainIf h
          have hw : w.isInvalid = false := (hu _ _ _ (.self _)).2 w rfl
          exact .inl ⟨_, .stated hvalue, .of_two rfl ⟨hw, ht⟩, rfl⟩
  | duplicate _ h =>
      obtain ⟨-, rfl⟩ := complainIf_eq_some_iff.mp h
      exact .inr ⟨rfl, rfl⟩
  | condition hc h =>
      obtain ⟨ht, rfl⟩ := guarded_of_complainIf h
      exact .inl ⟨_, .condition hc, .of_one rfl ht, rfl⟩
  | arms hc hthen helse h =>
      obtain ⟨hvalid, rfl⟩ := guarded_of_complainIf_two h
      exact .inl ⟨_, .arms hc hthen helse, .of_two rfl hvalid, rfl⟩
  | binary ha hb h =>
      have hknown := (hu _ _ _ (.self _)).1.imp_left And.left
      obtain ⟨hvalid, rfl⟩ := mismatch_of_ofBinary hknown h
      exact .inl ⟨_, .binary ha hb, .of_two Mismatch.types_ofOperands hvalid, rfl⟩
  | unary ha h =>
      obtain ⟨hvalid, rfl⟩ := mismatch_of_ofUnary (hu _ _ _ (.self _)).1 h
      exact .inl ⟨_, .unary ha, .of_one Mismatch.types_ofOperand hvalid, rfl⟩
  | bareReturn h =>
      rw [hv] at h
      obtain ⟨hvalid, rfl⟩ := mismatch_of_ofReturn h
      exact .inl ⟨_, .bareReturn hv, .of_two rfl ⟨hdeclared, hvalid⟩, rfl⟩
  | valueReturn ha h =>
      have hkept := (judge_kept ha).returnType.trans hv
      rw [hkept] at h
      obtain ⟨hvalid, rfl⟩ := mismatch_of_ofReturn h
      exact .inl ⟨_, .valueReturn ha hkept, .of_two rfl ⟨hdeclared, hvalid⟩, rfl⟩
  | loopJump => exact .inr ⟨rfl, rfl⟩
  | unknownFunction => exact .inr ⟨rfl, rfl⟩
  | argumentCount => exact .inr ⟨rfl, rfl⟩
  | argument hg hcount he ht h =>
      obtain ⟨hvalid, rfl⟩ := guarded_of_complainIf h
      have hp := hr.parameters hg _ he.mem_parameters
      exact .inl ⟨_, .argument hg hcount he ht, .of_two rfl ⟨hp, hvalid⟩, rfl⟩
  | subscript ha hb h =>
      obtain ⟨hvalid, rfl | rfl⟩ := mismatch_of_ofSubscript h
      · exact .inl ⟨_, .indexed ha hb, .of_two rfl hvalid, rfl⟩
      · exact .inl ⟨_, .index ha hb, .of_two rfl hvalid, rfl⟩

/-! ### Failed operands -/

/-- Runs on some expressions, one after the other, with the types that they give and the state after
the last of them. -/
inductive JudgesAll : List Tree → Checker → List Ty → Checker → Prop
  | nil {s} : JudgesAll [] s [] s
  | cons {e es s t s₁ ts s'} (h : judge e s = .ok (t, s₁)) (others : JudgesAll es s₁ ts s') :
      JudgesAll (e :: es) s (t :: ts) s'

/-- What is complained of only if no operand has failed is not complained of if one has. -/
lemma eq_none_of_invalid {o : Option Complaint} {ts : List Ty}
    (hinvalid : ∃ a ∈ ts, a.isInvalid = true)
    (hvalid : ∀ c, o = some c → ∀ a ∈ ts, a.isInvalid = false) : o = none := by
  obtain ⟨a, ha, hinvalid⟩ := hinvalid
  cases o with
  | none => rfl
  | some c => exact absurd hinvalid (Bool.eq_false_iff.mp (hvalid c rfl a ha))

/-- Nothing is recorded where nothing is complained of. -/
lemma log_settled {id : NodeId} {v : Verdict} (h : v.complaint = none) (s : Checker) :
    (s.settled id v).log = s.log := by
  rw [Checker.settled, h]
  rfl

/-- **Failed operands.** The check of an operator, of a `return` or of an index judges the operands,
and if one of them has failed, it leaves what was found as they leave it. -/
lemma log_of_invalid_operand (hu : u.Grammatical) (hr : r.Confined) (hform : u.takesOperands = true)
    (hrun : judge u r = .ok (t, r')) : ∃ ts s, JudgesAll u.children r ts s ∧
      ((∃ a ∈ ts, a.isInvalid = true) → r'.log = s.log) := by
  obtain ⟨v, hv, -⟩ := hr.returnType
  cases u with
  | missing id => cases hform
  | node id l shape =>
      have hfits := (hu _ _ _ (.self _)).1
      cases shape with
      | binary operator left right =>
          obtain ⟨a, s₁, ha, b, s₂, hb, -, rfl⟩ := judge_binary_eq_ok.mp hrun
          refine ⟨[a, b], s₂, .cons ha (.cons hb .nil), fun hinvalid => log_settled ?_ s₂⟩
          refine eq_none_of_invalid hinvalid fun c hc => ?_
          have hvalid := (mismatch_of_ofBinary (hfits.imp_left And.left) hc).1
          simpa using hvalid
      | unary operator operand =>
          obtain ⟨a, s₁, ha, -, rfl⟩ := judge_unary_eq_ok.mp hrun
          refine ⟨[a], s₁, .cons ha .nil, fun hinvalid => log_settled ?_ s₁⟩
          refine eq_none_of_invalid hinvalid fun c hc => ?_
          simpa using (mismatch_of_ofUnary hfits hc).1
      | jump operator value =>
          obtain rfl : operator = .returnWord := of_decide_eq_true hform
          cases value with
          | none => exact ⟨[], r, .nil, by simp⟩
          | some value =>
              obtain ⟨a, s₁, ha, -, rfl⟩ := judge_valueReturn_eq_ok.mp hrun
              refine ⟨[a], s₁, .cons ha .nil, fun hinvalid => log_settled ?_ s₁⟩
              refine eq_none_of_invalid hinvalid fun c hc => ?_
              rw [(judge_kept ha).returnType, hv] at hc
              simpa using (mismatch_of_ofReturn hc).1
      | subscript operand index =>
          obtain ⟨a, s₁, ha, b, s₂, hb, -, rfl⟩ := judge_subscript_eq_ok.mp hrun
          refine ⟨[a, b], s₂, .cons ha (.cons hb .nil), fun hinvalid => log_settled ?_ s₂⟩
          refine eq_none_of_invalid hinvalid fun c hc => ?_
          simpa using (mismatch_of_ofSubscript hc).1
      | _ => cases hform

end Checks

end Typing

open Typing Parsing

/-! ### Checks of programs -/

namespace Program

variable {p : Program} {n : ℕ} {log : Log} {u : Tree} {r : Checker}

/-- Where no name is stated to be of the type of a failure, the declared types in a body are those
of values. -/
lemma Judges.confined (hvalid : p.StatedTypesValid) (h : p.Judges log n u r) : r.Confined := by
  obtain ⟨f, s, hf, hs, hvisits⟩ := id h
  refine ⟨⟨f.prototype.returnType, hvisits.inside.returnType, ?_⟩, fun {name g} hg => ?_⟩
  · exact (hvalid.prototype (List.mem_of_getElem? hf)).1
  · rw [find?_of_judges h] at hg
    obtain ⟨q, hq, rfl⟩ := Option.map_eq_some_iff.mp hg
    intro t ht
    obtain ⟨a, ha, rfl⟩ := List.mem_map.mp ht
    exact (hvalid q (mem_prototypes_of_mem_registeredUpTo (mem_of_lastNamed hq).1)).2 a ha

/-- In a check of a program each part that is judged gets a type. -/
lemma Judges.exists_judge {types : Array Ty} {out : Log} (hrun : typeCheck p log = .ok (types, out))
    (h : p.Judges log n u r) : ∃ t r', judge u r = .ok (t, r') := by
  obtain ⟨f, s, hf, hs, hvisits⟩ := h
  obtain ⟨s₀, t, s', hs₀, hbody, -⟩ := exists_judge_body hrun hf
  cases hs.symm.trans hs₀
  obtain ⟨v, r', hu, -⟩ := hvisits.run hbody
  exact ⟨v, r', hu⟩

lemma Judges.grammatical {tokens : List Token} {log' : Log} (hp : (parse tokens log').1 = some p)
    (h : p.Judges log n u r) : u.Grammatical := by
  obtain ⟨f, s, hf, -, hvisits⟩ := h
  have hbody := (grammatical_of_parse hp (List.mem_of_getElem? hf)).2
  exact fun id l shape hu => hbody id l shape (hvisits.contains.trans hu)

end Program

/-- **No failure leads to another error.** Each error that a check of a parsed program records about
types that do not go together comes from an expression that is judged: all types that are compared
there are those of values, and the note prints no other types. Other errors and warnings have no
notes. Where an operand has failed, the check of an operator, of a `return` or of an index leaves
what was found as the checks of its operands leave it. -/
theorem mismatches_of_typeCheck {tokens : List Token} {log : Log} {p : Program}
    (h : (parse tokens log).1 = some p) (log' : Log) :
    ∃ types out errors warnings, typeCheck p log' = .ok (types, out) ∧
      out.errors = log'.errors ++ errors ∧ out.warnings = log'.warnings ++ warnings ∧
      (∀ d ∈ errors, (∃ n u r m l, p.Judges log' n u r ∧ Compares u r m l ∧ m.OfValues ∧
          d = (m.complaint l).diagnostic) ∨ d.problem.isMismatch = false ∧ d.notes = []) ∧
      (∀ d ∈ warnings, d.notes = []) ∧
      ∀ n u r, p.Judges log' n u r → u.takesOperands = true →
        ∃ t r' ts s, judge u r = .ok (t, r') ∧ JudgesAll u.children r ts s ∧
          ((∃ a ∈ ts, a.isInvalid = true) → r'.log = s.log) := by
  have hvalid := statedTypesValid_of_parse h
  obtain ⟨types, out, hrun⟩ := exists_typeCheck_of_parse h log'
  obtain ⟨errors, herrors, -, hfound⟩ := Program.exists_found_typeCheck hrun
  obtain ⟨calls, s, -, hcourse, hsound, rfl⟩ := exists_recordCheck hrun
  have hwarnings := hcourse.warnings hsound
  rw [warnings_declared] at hwarnings
  refine ⟨types, s.log, errors, _, hrun, herrors, hwarnings, fun d hd => ?_, fun d hd => ?_,
    fun n u r hjudges hform => ?_⟩
  · rcases (hfound d).mp hd with hd | ⟨n, u, r, k, hjudges, hk, rfl⟩
    · obtain ⟨q, -, rfl⟩ := List.mem_map.mp hd
      exact .inr ⟨rfl, rfl⟩
    · rcases hk.exists_mismatch_or (hjudges.grammatical h) (hjudges.confined hvalid) with
        ⟨m, hm, hvalues, hkm⟩ | ⟨hproblem, hnote⟩
      · exact .inl ⟨n, u, r, m, k.location, hjudges, hm, hvalues, congrArg _ hkm⟩
      · exact .inr ⟨hproblem, by rw [Complaint.diagnostic, hnote]; rfl⟩
  · obtain ⟨u, -, rfl⟩ := List.mem_map.mp hd
    rfl
  · obtain ⟨t, r', hu⟩ := hjudges.exists_judge hrun
    obtain ⟨ts, s, hall, hlog⟩ :=
      log_of_invalid_operand (hjudges.grammatical h) (hjudges.confined hvalid) hform hu
    exact ⟨t, r', ts, s, hu, hall, hlog⟩

/-- The tokens of `func f(x: int) { let z = q; z + 1; x + 1.5; }`. -/
def failedTokens : List Token :=
  [⟨.funcWord, "func", ⟨0, 0⟩⟩, ⟨.ident, "f", ⟨0, 5⟩⟩, ⟨.leftParen, "(", ⟨0, 6⟩⟩,
    ⟨.ident, "x", ⟨0, 7⟩⟩, ⟨.colon, ":", ⟨0, 8⟩⟩, ⟨.ident, "int", ⟨0, 10⟩⟩,
    ⟨.rightParen, ")", ⟨0, 13⟩⟩, ⟨.leftBrace, "\x7b", ⟨0, 15⟩⟩, ⟨.letWord, "let", ⟨0, 17⟩⟩,
    ⟨.ident, "z", ⟨0, 21⟩⟩, ⟨.equal, "=", ⟨0, 23⟩⟩, ⟨.ident, "q", ⟨0, 25⟩⟩,
    ⟨.semicolon, ";", ⟨0, 26⟩⟩, ⟨.ident, "z", ⟨0, 28⟩⟩, ⟨.plus, "+", ⟨0, 30⟩⟩,
    ⟨.integer, "1", ⟨0, 32⟩⟩, ⟨.semicolon, ";", ⟨0, 33⟩⟩, ⟨.ident, "x", ⟨0, 35⟩⟩,
    ⟨.plus, "+", ⟨0, 37⟩⟩, ⟨.float, "1.5", ⟨0, 39⟩⟩, ⟨.semicolon, ";", ⟨0, 42⟩⟩,
    ⟨.rightBrace, "\x7d", ⟨0, 44⟩⟩]

/-- The sum `z + 1`. -/
def failedSum : Tree :=
  .node 4 ⟨0, 30⟩ (.binary .plus (.node 2 ⟨0, 28⟩ (.var "z")) (.node 3 ⟨0, 32⟩ (.number "1" false)))

/-- The function of `failedTokens`. -/
def failedFunction : Function := ⟨⟨"f", [⟨"x", .int, ⟨0, 7⟩⟩], .void, ⟨0, 5⟩⟩, 8⟩

/-- The program of `failedTokens`. -/
def failedProgram : Program where
  arena := ((((((((Arena.empty.add (.var "q") ⟨0, 25⟩).add (.binding "z" none 0) ⟨0, 17⟩).add
    (.var "z") ⟨0, 28⟩).add (.number "1" false) ⟨0, 32⟩).add (.binary .plus 2 3) ⟨0, 30⟩).add
    (.var "x") ⟨0, 35⟩).add (.number "1.5" true) ⟨0, 39⟩).add (.binary .plus 5 6) ⟨0, 37⟩).add
    (.block [1, 4, 7]) ⟨0, 15⟩
  functions := [failedFunction]

/-- The unknown name is reported, but not the sum of what is bound to it and a number. The sum of
two numbers of different types is reported as well. -/
theorem failed_sum_unreported :
    (parse failedTokens {}).1 = some failedProgram ∧
      ∃ types out, typeCheck failedProgram {} = .ok (types, out) ∧
        out.errors = [.error (.unknownVariable "q") ⟨0, 25⟩,
          ((Mismatch.arithmetic .int .float).complaint ⟨0, 37⟩).diagnostic] ∧
        (∃ n u r m l, failedProgram.Judges {} n u r ∧ Compares u r m l ∧ m.OfValues ∧
          ((Mismatch.arithmetic .int .float).complaint ⟨0, 37⟩).diagnostic
            = (m.complaint l).diagnostic) ∧
        ∃ r t r' ts s, failedProgram.Judges {} 0 failedSum r ∧ judge failedSum r = .ok (t, r') ∧
          JudgesAll failedSum.children r ts s ∧ (∃ a ∈ ts, a.isInvalid = true) ∧
          r'.log = s.log := by
  have hparse : (parse failedTokens {}).1 = some failedProgram := by decide +kernel
  have hfound : (typeCheck failedProgram {}).map (fun r => r.2.errors)
      = .ok [.error (.unknownVariable "q") ⟨0, 25⟩,
          ((Mismatch.arithmetic .int .float).complaint ⟨0, 37⟩).diagnostic] := by
    decide +kernel
  obtain ⟨types, out, errors, warnings, hrun, herrors, -, hmismatch, -, hoperands⟩ :=
    mismatches_of_typeCheck hparse {}
  rw [hrun] at hfound
  have hout : out.errors = _ := Except.ok.inj hfound
  have hjudges : failedProgram.Judges {} 0 failedSum _ :=
    ⟨failedFunction, _, rfl, rfl, .child (.statement (.later rfl .first)) (.self _ _)⟩
  obtain ⟨t, r', ts, s, hsum, hall, hlog⟩ := hoperands 0 failedSum _ hjudges rfl
  have hinvalid : ∃ a ∈ ts, a.isInvalid = true := by
    cases hall with
    | @cons _ _ _ a s₁ ts s hz _ =>
        have hname : (.ok (.invalid, _) : Except MissingNode (Ty × Checker)) = .ok (a, s₁) := hz
        have ha : Ty.invalid = a := congrArg Prod.fst (Except.ok.inj hname)
        exact ⟨a, List.mem_cons_self, ha ▸ rfl⟩
  refine ⟨hparse, types, out, hrun, hout, ?_, _, t, r', ts, s, hjudges, hsum, hall, hinvalid,
    hlog hinvalid⟩
  have hmem : ((Mismatch.arithmetic .int .float).complaint ⟨0, 37⟩).diagnostic ∈ errors := by
    have hnew : out.errors = errors := herrors
    rw [← hnew, hout]
    simp
  rcases hmismatch _ hmem with h | ⟨h, -⟩
  · exact h
  · cases h

end Fern
