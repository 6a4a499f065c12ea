import Fern.Proofs.Typing.Soundness

/-!
A derivation of the judgement is a run of the checker without a complaint.

* `Succeeds`: a computation of the checker gives a result, leaves certain scopes behind and records
  no error.
* `CompleteAt`: from every ready state the checker finds each type of an expression;
  `CompleteAt.binding` and its companions for the forms.
* `judge_of_hasType`: from a ready state the checker finds whatever type the judgement derives, with
  the scopes of the derivation.
-/

namespace Fern.Typing

/-- A computation gives `a` and the state `s'`, records no error, and then the scopes are `Γ`. -/
structure Succeeds {α : Type} (x : Check α) (s : Checker) (a : α) (Γ : Scopes Ty) (s' : Checker) :
    Prop where
  run : x s = .ok (a, s')
  errors : s'.log.errors = s.log.errors
  scopes : s'.scopes = Γ

section Completeness

variable {callable : String → Option Signature} {declared : Ty}

/-- From every ready state the checker finds each type of `e`, without a complaint. -/
def CompleteAt (callable : String → Option Signature) (declared : Ty) (e : Tree) : Prop :=
  ∀ s t Γ, Ready callable declared s → HasType callable declared s.scopes e t Γ →
    ∃ s', Succeeds (judge e) s t Γ s'

/-- The types of as many arguments as there are parameters. -/
lemma ArgumentsHaveTypes.length_eq {Γ Γ' : Scopes Ty} {es : List Tree} {ps : List Ty}
    (h : ArgumentsHaveTypes callable declared Γ es ps Γ') : ps.length = es.length := by
  induction es generalizing ps Γ with
  | nil => cases h; rfl
  | cons e es ih =>
      cases h with
      | cons _ hothers => simp [ih hothers]

/-! ### Forms without subexpressions -/

variable {id : NodeId} {l : Location}

lemma CompleteAt.var (name : String) : CompleteAt callable declared (.node id l (.var name)) := by
  intro s t Γ _ htype
  cases htype with
  | var bound => exact ⟨_, (judge_bound_eq_ok bound).mpr ⟨rfl, rfl⟩, rfl, rfl⟩

lemma CompleteAt.bareReturn :
    CompleteAt callable declared (.node id l (.jump .returnWord none)) := by
  intro s t Γ hs htype
  cases htype with
  | bareReturn void =>
      refine ⟨_, judge_bareReturn_eq_ok.mpr ⟨?_, rfl⟩, ?_, rfl⟩
      · rw [hs.returnType]
        rfl
      · rw [hs.returnType]
        exact complained_errors_iff.mpr ((ofReturn_accepts_iff rfl).mpr void.symm)

/-! ### Subexpressions in order -/

variable (hresult : ∀ name g, callable name = some g → g.returnType.isInvalid = false)

include hresult

/-- The run that a derivation stands for: its type is valid, and the checker is ready again. -/
lemma CompleteAt.run {e : Tree} (h : CompleteAt callable declared e) {s : Checker} {t : Ty}
    {Γ : Scopes Ty} (hs : Ready callable declared s)
    (htype : HasType callable declared s.scopes e t Γ) :
    ∃ s', Succeeds (judge e) s t Γ s' ∧ t.isInvalid = false ∧ Ready callable declared s' := by
  obtain ⟨s', hrun, herrors, rfl⟩ := h s t Γ hs htype
  obtain ⟨ht, hscopes⟩ := htype.valid hresult hs.scopes
  exact ⟨s', ⟨hrun, herrors, rfl⟩, ht, hs.after (judge_kept hrun) hscopes⟩

/-- Statements that have a type are judged without a complaint. -/
lemma judgeStatements_of_type {e : Tree} {es : List Tree}
    (ih : ∀ x ∈ e :: es, CompleteAt callable declared x) {b : Bool} {u t : Ty} {Γ : Scopes Ty}
    {s : Checker} (hs : Ready callable declared s)
    (htype : StatementsHaveType callable declared s.scopes (e :: es) t Γ) :
    ∃ s', Succeeds (judgeStatements b u (e :: es)) s t Γ s' := by
  induction es generalizing e b u s with
  | nil =>
      cases htype with
      | last hlast =>
          rw [← warned_scopes b e.location s] at hlast
          obtain ⟨s', hrun, herrors, hΓ⟩ := ih e (by simp) _ _ _ (hs.warned b e.location) hlast
          rw [warned_errors] at herrors
          refine ⟨s', judgeStatements_cons_eq_ok.mpr ⟨t, s', hrun, ?_⟩, herrors, hΓ⟩
          exact judgeStatements_nil_eq_ok.mpr ⟨rfl, rfl⟩
  | cons x xs ihes =>
      cases htype with
      | cons hfirst hothers =>
          rw [← warned_scopes b e.location s] at hfirst
          obtain ⟨s₁, ⟨hrun, herrors, rfl⟩, -, hs₁⟩ :=
            (ih e (by simp)).run hresult (hs.warned b e.location) hfirst
          rw [warned_errors] at herrors
          obtain ⟨s', hrest, herrors', hΓ⟩ :=
            ihes (fun y hy => ih y (List.mem_cons_of_mem _ hy)) hs₁ hothers
          exact ⟨s', judgeStatements_cons_eq_ok.mpr ⟨_, s₁, hrun, hrest⟩,
            herrors'.trans herrors, hΓ⟩

/-- Arguments of the types of the parameters are accepted without a complaint. -/
lemma judgeArguments_of_types (callee : String) {es : List Tree}
    (ih : ∀ x ∈ es, CompleteAt callable declared x) {ps : List Ty} {Γ : Scopes Ty} {s : Checker}
    (hs : Ready callable declared s)
    (htypes : ArgumentsHaveTypes callable declared s.scopes es ps Γ) :
    ∃ s', Succeeds (judgeArguments callee ps es) s true Γ s' := by
  induction es generalizing ps s with
  | nil =>
      cases htypes
      exact ⟨s, judgeArguments_nil_eq_ok.mpr ⟨rfl, rfl⟩, rfl, rfl⟩
  | cons e es ihes =>
      cases htypes with
      | @cons _ _ _ _ _ t ps hfirst hothers =>
          obtain ⟨s₁, ⟨hrun, herrors, rfl⟩, ht, hs₁⟩ := (ih e (by simp)).run hresult hs hfirst
          obtain ⟨s', hrest, herrors', hΓ⟩ :=
            ihes (fun x hx => ih x (List.mem_cons_of_mem _ hx)) hs₁ hothers
          refine ⟨s', judgeArguments_cons_eq_ok.mpr ⟨t, s₁, hrun, ?_⟩, herrors'.trans herrors, hΓ⟩
          rw [if_neg (by simp [ht]), (argumentComplaint_eq_none ht).mpr rfl]
          exact hrest

/-! ### Forms with subexpressions -/

lemma CompleteAt.binding {value : Tree} (h : CompleteAt callable declared value) (name : String)
    (stated : Option Ty) :
    CompleteAt callable declared (.node id l (.binding name stated value)) := by
  intro s t Γ hs htype
  cases htype with
  | binding hvalue annotated fresh =>
      obtain ⟨s₁, ⟨hrun, herrors, rfl⟩, ht, -⟩ := h.run hresult hs hvalue
      have hstated : annotationComplaint name stated t l = none :=
        (annotationComplaint_eq_none ht).mpr annotated
      have hnew : s₁.duplicate name l = none := by
        simp [Checker.duplicate, complainIf_eq_none, fresh]
      refine ⟨_, judge_binding_eq_ok.mpr ⟨t, s₁, hrun, rfl, rfl⟩, ?_, ?_⟩
      · rw [hstated]
        exact (complained_errors_iff.mpr hnew).trans herrors
      · rw [hstated]
        rfl

lemma CompleteAt.block {statements : List Tree}
    (ih : ∀ x ∈ statements, CompleteAt callable declared x) :
    CompleteAt callable declared (.node id l (.block statements)) := by
  intro s t Γ hs htype
  cases htype with
  | block inner =>
      cases statements with
      | nil =>
          cases inner
          refine ⟨_, judge_block_eq_ok.mpr ⟨.void, s.opened, ?_, rfl, rfl⟩, rfl, rfl⟩
          exact judgeStatements_nil_eq_ok.mpr ⟨rfl, rfl⟩
      | cons e es =>
          obtain ⟨s₁, hrun, herrors, rfl⟩ :=
            judgeStatements_of_type hresult ih (b := false) (u := .void) hs.opened inner
          exact ⟨_, judge_block_eq_ok.mpr ⟨t, s₁, hrun, rfl, rfl⟩, herrors,
            (judgeStatements_kept hrun).outer⟩

lemma CompleteAt.cond {condition thenBlock : Tree}
    (hcondition : CompleteAt callable declared condition)
    (hthen : CompleteAt callable declared thenBlock) :
    CompleteAt callable declared (.node id l (.cond condition thenBlock none)) := by
  intro s t Γ hs htype
  cases htype with
  | cond hbool hblock =>
      obtain ⟨s₁, ⟨hc, hc', rfl⟩, -, hs₁⟩ := hcondition.run hresult hs hbool
      obtain ⟨s₂, ht, ht', hΓ⟩ := hthen _ _ _ hs₁ hblock
      have hnone := (conditionComplaint_eq_none (l := condition.location) rfl).mpr rfl
      refine ⟨_, judge_cond_eq_ok.mpr ⟨.bool, s₁, hc, t, s₂, ?_, rfl, rfl⟩, ht'.trans hc', hΓ⟩
      rw [hnone]
      exact ht

lemma CompleteAt.condElse {condition thenBlock elseBlock : Tree}
    (hcondition : CompleteAt callable declared condition)
    (hthen : CompleteAt callable declared thenBlock)
    (helse : CompleteAt callable declared elseBlock) :
    CompleteAt callable declared (.node id l (.cond condition thenBlock (some elseBlock))) := by
  intro s t Γ hs htype
  cases htype with
  | condElse hbool hblock hother =>
      obtain ⟨s₁, ⟨hc, hc', rfl⟩, -, hs₁⟩ := hcondition.run hresult hs hbool
      obtain ⟨s₂, ⟨ht, ht', rfl⟩, hvalid, hs₂⟩ := hthen.run hresult hs₁ hblock
      obtain ⟨s₃, he, he', hΓ⟩ := helse _ _ _ hs₂ hother
      have hnone := (conditionComplaint_eq_none (l := condition.location) rfl).mpr rfl
      have harms := (armsComplaint_eq_none (l := l) hvalid hvalid).mpr rfl
      refine ⟨_, judge_condElse_eq_ok.mpr ⟨.bool, s₁, hc, t, s₂, ?_, t, s₃, he, rfl, rfl⟩, ?_, ?_⟩
      · rw [hnone]
        exact ht
      · rw [harms]
        exact he'.trans (ht'.trans hc')
      · rw [harms]
        exact hΓ

lemma CompleteAt.binary {left right : Tree} (hleft : CompleteAt callable declared left)
    (hright : CompleteAt callable declared right) (operator : Token.Kind) :
    CompleteAt callable declared (.node id l (.binary operator left right)) := by
  intro s t Γ hs htype
  cases htype with
  | @binary _ _ _ _ _ _ _ _ u _ hltype hrtype rule =>
      obtain ⟨s₁, ⟨ha, ha', rfl⟩, hvalid, hs₁⟩ := hleft.run hresult hs hltype
      obtain ⟨s₂, hb, hb', hΓ⟩ := hright _ _ _ hs₁ hrtype
      obtain ⟨hnone, htype⟩ :=
        (ofBinary_accepts_iff l (left.name?.getD "?") hvalid hvalid).mpr ⟨rfl, rule⟩
      refine ⟨_, judge_binary_eq_ok.mpr ⟨u, s₁, ha, u, s₂, hb, htype, rfl⟩, ?_, hΓ⟩
      exact (complained_errors_iff.mpr hnone).trans (hb'.trans ha')

lemma CompleteAt.unary {operand : Tree} (h : CompleteAt callable declared operand)
    (operator : Token.Kind) :
    CompleteAt callable declared (.node id l (.unary operator operand)) := by
  intro s t Γ hs htype
  cases htype with
  | unary hoperand rule =>
      obtain ⟨s₁, ⟨ha, ha', rfl⟩, hvalid, -⟩ := h.run hresult hs hoperand
      obtain ⟨hnone, htype⟩ := (ofUnary_accepts_iff (l := l) hvalid).mpr ⟨rfl, rule⟩
      refine ⟨_, judge_unary_eq_ok.mpr ⟨t, s₁, ha, htype, rfl⟩, ?_, rfl⟩
      exact (complained_errors_iff.mpr hnone).trans ha'

lemma CompleteAt.valueReturn {value : Tree} (h : CompleteAt callable declared value) :
    CompleteAt callable declared (.node id l (.jump .returnWord (some value))) := by
  intro s t Γ hs htype
  cases htype with
  | valueReturn hvalue =>
      obtain ⟨s₁, ⟨ha, ha', rfl⟩, hvalid, hs₁⟩ := h.run hresult hs hvalue
      refine ⟨_, judge_valueReturn_eq_ok.mpr ⟨declared, s₁, ha, ?_, rfl⟩, ?_, rfl⟩
      · rw [hs₁.returnType]
        rfl
      · rw [hs₁.returnType]
        exact (complained_errors_iff.mpr ((ofReturn_accepts_iff hvalid).mpr rfl)).trans ha'

lemma CompleteAt.call {arguments : List Tree}
    (ih : ∀ x ∈ arguments, CompleteAt callable declared x) (callee : String) :
    CompleteAt callable declared (.node id l (.call callee arguments)) := by
  intro s t Γ hs htype
  cases htype with
  | call known harguments =>
      have hg := (hs.signatures callee).trans known
      obtain ⟨s₁, ha, ha', hΓ⟩ := judgeArguments_of_types hresult callee ih hs harguments
      exact ⟨_, (judge_call_eq_ok hg harguments.length_eq).mpr ⟨true, s₁, ha, rfl, rfl⟩, ha', hΓ⟩

lemma CompleteAt.subscript {operand index : Tree} (hoperand : CompleteAt callable declared operand)
    (hindex : CompleteAt callable declared index) :
    CompleteAt callable declared (.node id l (.subscript operand index)) := by
  intro s t Γ hs htype
  cases htype with
  | @subscript _ _ _ _ _ _ _ u _ hotype hitype element =>
      obtain ⟨s₁, ⟨ha, ha', rfl⟩, hvalid, hs₁⟩ := hoperand.run hresult hs hotype
      obtain ⟨s₂, hb, hb', hΓ⟩ := hindex _ _ _ hs₁ hitype
      obtain ⟨hnone, htype⟩ :=
        (ofSubscript_accepts_iff l index.location hvalid rfl).mpr ⟨rfl, element⟩
      refine ⟨_, judge_subscript_eq_ok.mpr ⟨u, s₁, ha, .int, s₂, hb, htype, rfl⟩, ?_, hΓ⟩
      exact (complained_errors_iff.mpr hnone).trans (hb'.trans ha')

/-! ### All expressions -/

/-- **Completeness**: from a ready state the checker finds whatever type is derivable, without a
complaint, and leaves the scopes of the derivation behind. -/
theorem judge_of_hasType (e : Tree) : CompleteAt callable declared e := by
  induction e using Tree.childInduction with
  | missing id =>
      intro s t Γ _ h
      cases h
  | node id l shape ih =>
      cases shape with
      | number =>
          intro s t Γ _ h
          cases h
          exact ⟨_, judge_number_eq_ok.mpr ⟨rfl, rfl⟩, rfl, rfl⟩
      | boolean =>
          intro s t Γ _ h
          cases h
          exact ⟨_, judge_boolean_eq_ok.mpr ⟨rfl, rfl⟩, rfl, rfl⟩
      | string =>
          intro s t Γ _ h
          cases h
          exact ⟨_, judge_string_eq_ok.mpr ⟨rfl, rfl⟩, rfl, rfl⟩
      | char =>
          intro s t Γ _ h
          cases h
          exact ⟨_, judge_char_eq_ok.mpr ⟨rfl, rfl⟩, rfl, rfl⟩
      | var name => exact .var name
      | binding name stated value =>
          exact (ih value (by simp [Shape.children])).binding hresult name stated
      | block statements => exact .block hresult ih
      | cond condition thenBlock elseBlock =>
          have hcondition := ih condition (by simp [Shape.children])
          have hthen := ih thenBlock (by simp [Shape.children])
          cases elseBlock with
          | none => exact hcondition.cond hresult hthen
          | some elseBlock =>
              exact hcondition.condElse hresult hthen (ih elseBlock (by simp [Shape.children]))
      | binary operator left right =>
          have hleft := ih left (by simp [Shape.children])
          exact hleft.binary hresult (ih right (by simp [Shape.children])) operator
      | unary operator operand =>
          exact (ih operand (by simp [Shape.children])).unary hresult operator
      | jump operator value =>
          by_cases hop : operator = .returnWord
          · subst hop
            cases value with
            | none => exact .bareReturn
            | some value => exact (ih value (by simp [Shape.children])).valueReturn hresult
          · intro s t Γ _ h
            cases h <;> exact absurd rfl hop
      | call callee arguments => exact .call hresult ih callee
      | subscript operand index =>
          have hoperand := ih operand (by simp [Shape.children])
          exact hoperand.subscript hresult (ih index (by simp [Shape.children]))

end Completeness

end Fern.Typing
