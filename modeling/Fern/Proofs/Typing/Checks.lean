import Fern.Proofs.Typing.Trace
import Fern.Proofs.Typing.Visits

/-!
The checks that the errors of a run come from.

* `Complains`: what the check of an expression complains of itself, apart from the checks of its
  parts.
* `Reported`: the errors that the checks of an expression and of the parts that a run comes to are
  recorded as, each with the note of its own check.
* `errors_of_judge`: **a run records the errors of its checks** and no others.
-/

namespace Fern.Typing

/-- The check of an expression itself, in a run on it from a given state, makes a complaint. -/
inductive Complains : Tree → Checker → Complaint → Prop
  | unknownVariable {id l name s} (h : s.scopes.lookup name = none) :
      Complains (.node id l (.var name)) s ⟨.unknownVariable name, l, none⟩
  | stated {id l name stated value s t s₁ c} (hv : judge value s = .ok (t, s₁))
      (h : annotationComplaint name stated t l = some c) :
      Complains (.node id l (.binding name stated value)) s c
  | duplicate {id l name stated value s t s₁ c} (hv : judge value s = .ok (t, s₁))
      (h : s₁.duplicate name l = some c) : Complains (.node id l (.binding name stated value)) s c
  | condition {id l condition thenBlock elseBlock s t s₁ c} (hc : judge condition s = .ok (t, s₁))
      (h : conditionComplaint t condition.location = some c) :
      Complains (.node id l (.cond condition thenBlock elseBlock)) s c
  | arms {id l condition thenBlock elseBlock s t s₁ u s₂ v s₃ c}
      (hc : judge condition s = .ok (t, s₁))
      (ht : judge thenBlock (s₁.complained (conditionComplaint t condition.location))
        = .ok (u, s₂))
      (he : judge elseBlock s₂ = .ok (v, s₃)) (h : armsComplaint u v l = some c) :
      Complains (.node id l (.cond condition thenBlock (some elseBlock))) s c
  | binary {id l operator left right s a s₁ b s₂ c} (ha : judge left s = .ok (a, s₁))
      (hb : judge right s₁ = .ok (b, s₂))
      (h : (ofBinary operator (left.name?.getD "?") a b l).complaint = some c) :
      Complains (.node id l (.binary operator left right)) s c
  | unary {id l operator operand s a s₁ c} (ha : judge operand s = .ok (a, s₁))
      (h : (ofUnary operator a l).complaint = some c) :
      Complains (.node id l (.unary operator operand)) s c
  | bareReturn {id l s c} (h : (ofReturn s.returnType .void l).complaint = some c) :
      Complains (.node id l (.jump .returnWord none)) s c
  | valueReturn {id l value s a s₁ c} (ha : judge value s = .ok (a, s₁))
      (h : (ofReturn s₁.returnType a l).complaint = some c) :
      Complains (.node id l (.jump .returnWord (some value))) s c
  | loopJump {id l operator value s} (h : operator ≠ .returnWord) :
      Complains (.node id l (.jump operator value)) s ⟨.loopControlOutsideLoop, l, none⟩
  | unknownFunction {id l callee arguments s} (h : s.signatures.find? callee = none) :
      Complains (.node id l (.call callee arguments)) s ⟨.unknownFunction callee, l, none⟩
  | argumentCount {id l callee arguments s g} (hg : s.signatures.find? callee = some g)
      (hcount : g.parameters.length ≠ arguments.length) :
      Complains (.node id l (.call callee arguments)) s
        ⟨.argumentCountMismatch g.parameters.length arguments.length, l, none⟩
  | argument {id l callee arguments s g p e r t r' c} (hg : s.signatures.find? callee = some g)
      (hcount : g.parameters.length = arguments.length)
      (he : TurnsToArgument g.parameters arguments s p e r) (ht : judge e r = .ok (t, r'))
      (h : argumentComplaint callee p t e.location = some c) :
      Complains (.node id l (.call callee arguments)) s c
  | subscript {id l operand index s a s₁ b s₂ c} (ha : judge operand s = .ok (a, s₁))
      (hb : judge index s₁ = .ok (b, s₂))
      (h : (ofSubscript a b l index.location).complaint = some c) :
      Complains (.node id l (.subscript operand index)) s c

/-- In a run on `e` from `s`, an error is that of the check of a part, with the note of this check
if it has one. -/
def Reported (e : Tree) (s : Checker) (d : Diagnostic) : Prop :=
  ∃ u r c, Visits e s u r ∧ Complains u r c ∧ d = c.diagnostic

lemma Reported.child {e c : Tree} {s r : Checker} {d : Diagnostic} (h : TurnsTo e s c r)
    (hd : Reported c r d) : Reported e s d := by
  obtain ⟨u, q, k, hu, hk, rfl⟩ := hd
  exact ⟨u, q, k, .child h hu, hk, rfl⟩

/-! ### Errors that are added -/

/-- The state `s'` has the errors of `s`, and after them only errors with the property `D`. -/
def Checker.Adds (D : Diagnostic → Prop) (s s' : Checker) : Prop :=
  ∃ found, s'.log.errors = s.log.errors ++ found ∧ ∀ d ∈ found, D d

namespace Checker.Adds

variable {D D' : Diagnostic → Prop} {s s₁ s' : Checker}

lemma of_eq (h : s'.log.errors = s.log.errors) : s.Adds D s' :=
  ⟨[], h.trans (List.append_nil _).symm, by simp⟩

lemma trans (h : s.Adds D s₁) (h' : s₁.Adds D s') : s.Adds D s' := by
  obtain ⟨found, herrors, hfound⟩ := h
  obtain ⟨more, herrors', hmore⟩ := h'
  refine ⟨found ++ more, by rw [herrors', herrors, List.append_assoc], fun d hd => ?_⟩
  exact (List.mem_append.mp hd).elim (hfound d) (hmore d)

lemma mono (h : s.Adds D s') (hD : ∀ d, D d → D' d) : s.Adds D' s' := by
  obtain ⟨found, herrors, hfound⟩ := h
  exact ⟨found, herrors, fun d hd => hD d (hfound d hd)⟩

lemma complained {c : Option Complaint} (h : ∀ k, c = some k → D k.diagnostic) (s : Checker) :
    s.Adds D (s.complained c) := by
  cases c with
  | none => exact of_eq rfl
  | some k =>
      refine ⟨[k.diagnostic], s.errors_complained k, fun d hd => ?_⟩
      exact List.mem_singleton.mp hd ▸ h k rfl

end Checker.Adds

/-! ### Every error is that of a check -/

section Sound

variable {D : Diagnostic → Prop} {es : List Tree} {s s' : Checker} {t : Ty}

lemma adds_of_judgeStatements {b : Bool} {v : Ty}
    (h : ∀ c r, TurnsToStatement b es s c r → ∀ t r', judge c r = .ok (t, r') → r.Adds D r')
    (hrun : judgeStatements b v es s = .ok (t, s')) : s.Adds D s' := by
  induction es generalizing b v s with
  | nil =>
      obtain ⟨-, rfl⟩ := judgeStatements_nil_eq_ok.mp hrun
      exact .of_eq rfl
  | cons e es ih =>
      obtain ⟨u, s₁, he, hrest⟩ := judgeStatements_cons_eq_ok.mp hrun
      have hwarned : s.Adds D (s.warned b e.location) := .of_eq (warned_errors _ _ _)
      refine hwarned.trans ((h e _ .first u s₁ he).trans ?_)
      exact ih (fun c r hc => h c r (.later he hc)) hrest

lemma adds_of_judgeArguments {callee : String} {ps : List Ty} {b : Bool}
    (hcount : ps.length = es.length)
    (h : ∀ p c r, TurnsToArgument ps es s p c r → ∀ t r', judge c r = .ok (t, r') →
      r.Adds D (r'.complained (argumentComplaint callee p t c.location)))
    (hrun : judgeArguments callee ps es s = .ok (b, s')) : s.Adds D s' := by
  induction es generalizing ps s with
  | nil =>
      obtain rfl : ps = [] := List.eq_nil_of_length_eq_zero hcount
      obtain ⟨-, rfl⟩ := judgeArguments_nil_eq_ok.mp hrun
      exact .of_eq rfl
  | cons e es ih =>
      cases ps with
      | nil => cases hcount
      | cons p ps =>
          obtain ⟨u, s₁, he, hrest⟩ := judgeArguments_cons_eq_ok.mp hrun
          have hfirst := h p e s .first u s₁ he
          split at hrest
          · rw [hrest.2]
            exact hfirst
          · next hpass =>
              obtain ⟨hvalid, rfl⟩ : u.isInvalid = false ∧ u = p := by simpa using hpass
              rw [(argumentComplaint_eq_none hvalid).mpr rfl] at hfirst hrest
              refine hfirst.trans (ih (by simpa using hcount) (fun q c r hc => ?_) hrest)
              exact h q c r (.later hvalid he hc)

end Sound

/-- A run on `e` adds only errors of the checks that it makes. -/
def AddsAt (e : Tree) : Prop :=
  ∀ s t s', judge e s = .ok (t, s') → s.Adds (Reported e s) s'

section Forms

variable {id : NodeId} {l : Location} {e c : Tree} {s r r' : Checker} {t : Ty}

lemma AddsAt.child (h : AddsAt c) (hc : TurnsTo e s c r) (hrun : judge c r = .ok (t, r')) :
    r.Adds (Reported e s) r' :=
  (h r t r' hrun).mono fun _ hd => hd.child hc

lemma adds_of_complains {k : Option Complaint} (h : ∀ c, k = some c → Complains e s c)
    (r : Checker) : r.Adds (Reported e s) (r.complained k) :=
  .complained (fun c hc => ⟨e, s, c, .self e s, h c hc, rfl⟩) r

lemma AddsAt.var (name : String) : AddsAt (.node id l (.var name)) := by
  intro s t s' hrun
  cases hlookup : s.scopes.lookup name with
  | some u =>
      obtain ⟨-, rfl⟩ := (judge_bound_eq_ok hlookup).mp hrun
      exact .of_eq rfl
  | none =>
      obtain ⟨-, rfl⟩ := (judge_unbound_eq_ok hlookup).mp hrun
      exact adds_of_complains (by rintro _ ⟨⟩; exact .unknownVariable hlookup) s

lemma AddsAt.binding {name : String} {stated : Option Ty} {value : Tree} (h : AddsAt value) :
    AddsAt (.node id l (.binding name stated value)) := by
  intro s t s' hrun
  obtain ⟨u, s₁, hv, -, rfl⟩ := judge_binding_eq_ok.mp hrun
  refine (h.child .value hv).trans ?_
  refine (adds_of_complains (fun c hc => .stated hv hc) s₁).trans ?_
  exact adds_of_complains (fun c hc => .duplicate hv hc) _

lemma AddsAt.block {statements : List Tree} (h : ∀ c ∈ statements, AddsAt c) :
    AddsAt (.node id l (.block statements)) := by
  intro s t s' hrun
  obtain ⟨u, s₁, hb, -, rfl⟩ := judge_block_eq_ok.mp hrun
  have hstatements : s.opened.Adds (Reported (.node id l (.block statements)) s) s₁ :=
    adds_of_judgeStatements
      (fun c r hc t r' hrun => (h c hc.mem).child (.statement hc) hrun) hb
  exact hstatements

lemma AddsAt.cond {condition thenBlock : Tree} (hcondition : AddsAt condition)
    (hthen : AddsAt thenBlock) : AddsAt (.node id l (.cond condition thenBlock none)) := by
  intro s t s' hrun
  obtain ⟨v, s₁, hc, u, s₂, ht, -, rfl⟩ := judge_cond_eq_ok.mp hrun
  refine (hcondition.child .condition hc).trans ?_
  refine (adds_of_complains (fun c h => .condition hc h) s₁).trans ?_
  have hblock : Checker.Adds (Reported (.node id l (.cond condition thenBlock none)) s) _ s₂ :=
    hthen.child (.thenBlock hc) ht
  exact hblock

lemma AddsAt.condElse {condition thenBlock elseBlock : Tree} (hcondition : AddsAt condition)
    (hthen : AddsAt thenBlock) (helse : AddsAt elseBlock) :
    AddsAt (.node id l (.cond condition thenBlock (some elseBlock))) := by
  intro s t s' hrun
  obtain ⟨v, s₁, hc, u, s₂, ht, w, s₃, he, -, rfl⟩ := judge_condElse_eq_ok.mp hrun
  refine (hcondition.child .condition hc).trans ?_
  refine (adds_of_complains (fun c h => .condition hc h) s₁).trans ?_
  refine (hthen.child (.thenBlock hc) ht).trans ?_
  refine (helse.child (.elseBlock hc ht) he).trans ?_
  exact adds_of_complains (fun c h => .arms hc ht he h) s₃

lemma AddsAt.binary {operator : Token.Kind} {left right : Tree} (hleft : AddsAt left)
    (hright : AddsAt right) : AddsAt (.node id l (.binary operator left right)) := by
  intro s t s' hrun
  obtain ⟨a, s₁, ha, b, s₂, hb, -, rfl⟩ := judge_binary_eq_ok.mp hrun
  refine (hleft.child .left ha).trans ?_
  refine (hright.child (.right ha) hb).trans ?_
  exact adds_of_complains (fun c h => .binary ha hb h) s₂

lemma AddsAt.unary {operator : Token.Kind} {operand : Tree} (h : AddsAt operand) :
    AddsAt (.node id l (.unary operator operand)) := by
  intro s t s' hrun
  obtain ⟨a, s₁, ha, -, rfl⟩ := judge_unary_eq_ok.mp hrun
  exact (h.child .operand ha).trans (adds_of_complains (fun c hc => .unary ha hc) s₁)

lemma AddsAt.bareReturn : AddsAt (.node id l (.jump .returnWord none)) := by
  intro s t s' hrun
  obtain ⟨-, rfl⟩ := judge_bareReturn_eq_ok.mp hrun
  exact adds_of_complains (fun c h => .bareReturn h) s

lemma AddsAt.valueReturn {value : Tree} (h : AddsAt value) :
    AddsAt (.node id l (.jump .returnWord (some value))) := by
  intro s t s' hrun
  obtain ⟨a, s₁, ha, -, rfl⟩ := judge_valueReturn_eq_ok.mp hrun
  exact (h.child .returned ha).trans (adds_of_complains (fun c hc => .valueReturn ha hc) s₁)

lemma AddsAt.loopJump {operator : Token.Kind} (hop : operator ≠ .returnWord)
    (value : Option Tree) : AddsAt (.node id l (.jump operator value)) := by
  intro s t s' hrun
  obtain ⟨-, rfl⟩ := (judge_loopJump_eq_ok hop).mp hrun
  exact adds_of_complains (by rintro _ ⟨⟩; exact .loopJump hop) s

lemma AddsAt.call {callee : String} {arguments : List Tree} (h : ∀ c ∈ arguments, AddsAt c) :
    AddsAt (.node id l (.call callee arguments)) := by
  intro s t s' hrun
  cases hg : s.signatures.find? callee with
  | none =>
      obtain ⟨-, rfl⟩ := (judge_unknownCall_eq_ok hg).mp hrun
      exact adds_of_complains (by rintro _ ⟨⟩; exact .unknownFunction hg) s
  | some g =>
      by_cases hcount : g.parameters.length = arguments.length
      · obtain ⟨b, s₁, ha, -, rfl⟩ := (judge_call_eq_ok hg hcount).mp hrun
        have harguments : s.Adds (Reported (.node id l (.call callee arguments)) s) s₁ := by
          refine adds_of_judgeArguments hcount (fun p c r hc t r' ht => ?_) ha
          refine ((h c hc.mem).child (.argument hg hcount hc) ht).trans ?_
          exact adds_of_complains (fun k hk => .argument hg hcount hc ht hk) r'
        exact harguments
      · obtain ⟨-, rfl⟩ := (judge_miscountedCall_eq_ok hg hcount).mp hrun
        exact adds_of_complains (by rintro _ ⟨⟩; exact .argumentCount hg hcount) s

lemma AddsAt.subscript {operand index : Tree} (hoperand : AddsAt operand) (hindex : AddsAt index) :
    AddsAt (.node id l (.subscript operand index)) := by
  intro s t s' hrun
  obtain ⟨a, s₁, ha, b, s₂, hb, -, rfl⟩ := judge_subscript_eq_ok.mp hrun
  refine (hoperand.child .subscripted ha).trans ?_
  refine (hindex.child (.index ha) hb).trans ?_
  exact adds_of_complains (fun c h => .subscript ha hb h) s₂

/-- The errors that a run records are those of the checks that it makes. -/
lemma addsAt (e : Tree) : AddsAt e := by
  induction e using Tree.childInduction with
  | missing id =>
      intro s t s' hrun
      rw [judge_missing] at hrun
      cases hrun
  | node id l shape ih =>
      cases shape with
      | number =>
          intro s t s' hrun
          obtain ⟨-, rfl⟩ := judge_number_eq_ok.mp hrun
          exact .of_eq rfl
      | boolean =>
          intro s t s' hrun
          obtain ⟨-, rfl⟩ := judge_boolean_eq_ok.mp hrun
          exact .of_eq rfl
      | string =>
          intro s t s' hrun
          obtain ⟨-, rfl⟩ := judge_string_eq_ok.mp hrun
          exact .of_eq rfl
      | char =>
          intro s t s' hrun
          obtain ⟨-, rfl⟩ := judge_char_eq_ok.mp hrun
          exact .of_eq rfl
      | var name => exact .var name
      | binding name stated value => exact .binding (ih value (by simp [Shape.children]))
      | block => exact .block ih
      | cond condition thenBlock elseBlock =>
          have hcondition := ih condition (by simp [Shape.children])
          have hthen := ih thenBlock (by simp [Shape.children])
          cases elseBlock with
          | none => exact .cond hcondition hthen
          | some elseBlock =>
              exact .condElse hcondition hthen (ih elseBlock (by simp [Shape.children]))
      | binary operator left right =>
          have hleft := ih left (by simp [Shape.children])
          exact .binary hleft (ih right (by simp [Shape.children]))
      | unary operator operand => exact .unary (ih operand (by simp [Shape.children]))
      | jump operator value =>
          by_cases hop : operator = .returnWord
          · subst hop
            cases value with
            | none => exact .bareReturn
            | some value => exact .valueReturn (ih value (by simp [Shape.children]))
          · exact .loopJump hop value
      | call => exact .call ih
      | subscript operand index =>
          have hoperand := ih operand (by simp [Shape.children])
          exact .subscript hoperand (ih index (by simp [Shape.children]))

end Forms

/-! ### Every check records its error -/

/-- After all errors of `s` the complaint `c` is recorded, and this error is among those of `s'`. -/
def Checker.Records (c : Complaint) (s s' : Checker) : Prop :=
  ∃ q : Checker, s.log.errors <+: q.log.errors ∧
    (q.complained (some c)).log.errors <+: s'.log.errors

section Complete

variable {e u : Tree} {s s' q r r' : Checker} {t : Ty} {c : Complaint}

lemma Checker.Records.of_complained {k : Option Complaint} (hk : k = some c)
    (h : s.log.errors <+: q.log.errors) (h' : (q.complained k).log.errors <+: s'.log.errors) :
    s.Records c s' :=
  ⟨q, h, hk ▸ h'⟩

/-- What a check complains of is recorded. -/
lemma Complains.records (h : Complains u r c) (hrun : judge u r = .ok (t, r')) :
    r.Records c r' := by
  cases h with
  | unknownVariable h =>
      obtain ⟨-, rfl⟩ := (judge_unbound_eq_ok h).mp hrun
      exact .of_complained rfl List.prefix_rfl List.prefix_rfl
  | stated hv h =>
      obtain ⟨u, s₁, hv', -, rfl⟩ := judge_binding_eq_ok.mp hrun
      cases hv.symm.trans hv'
      exact .of_complained h (judge_kept hv).errors (Checker.prefix_complained_errors _ _)
  | @duplicate _ l name stated _ _ t s₁ _ hv h =>
      obtain ⟨u, s₁, hv', -, rfl⟩ := judge_binding_eq_ok.mp hrun
      cases hv.symm.trans hv'
      have hstated := s₁.prefix_complained_errors (annotationComplaint name stated t l)
      exact .of_complained h ((judge_kept hv).errors.trans hstated) List.prefix_rfl
  | @condition _ l _ _ elseBlock _ _ _ _ hc h =>
      cases elseBlock with
      | none =>
          obtain ⟨v, s₁, hc', u, s₂, ht, -, rfl⟩ := judge_cond_eq_ok.mp hrun
          cases hc.symm.trans hc'
          exact .of_complained h (judge_kept hc).errors (judge_kept ht).errors
      | some elseBlock =>
          obtain ⟨v, s₁, hc', u, s₂, ht, w, s₃, he, -, rfl⟩ := judge_condElse_eq_ok.mp hrun
          cases hc.symm.trans hc'
          have harms := s₃.prefix_complained_errors (armsComplaint u w l)
          exact .of_complained h (judge_kept hc).errors
            ((judge_kept ht).errors.trans ((judge_kept he).errors.trans harms))
  | arms hc ht he h =>
      obtain ⟨v, s₁, hc', u, s₂, ht', w, s₃, he', -, rfl⟩ := judge_condElse_eq_ok.mp hrun
      cases hc.symm.trans hc'
      cases ht.symm.trans ht'
      cases he.symm.trans he'
      have hblocks := (judge_kept ht).errors.trans (judge_kept he).errors
      have hbefore := (Checker.prefix_complained_errors _ _).trans hblocks
      exact .of_complained h ((judge_kept hc).errors.trans hbefore) List.prefix_rfl
  | binary ha hb h =>
      obtain ⟨a, s₁, ha', b, s₂, hb', -, rfl⟩ := judge_binary_eq_ok.mp hrun
      cases ha.symm.trans ha'
      cases hb.symm.trans hb'
      exact .of_complained h ((judge_kept ha).errors.trans (judge_kept hb).errors) List.prefix_rfl
  | unary ha h =>
      obtain ⟨a, s₁, ha', -, rfl⟩ := judge_unary_eq_ok.mp hrun
      cases ha.symm.trans ha'
      exact .of_complained h (judge_kept ha).errors List.prefix_rfl
  | bareReturn h =>
      obtain ⟨-, rfl⟩ := judge_bareReturn_eq_ok.mp hrun
      exact .of_complained h List.prefix_rfl List.prefix_rfl
  | valueReturn ha h =>
      obtain ⟨a, s₁, ha', -, rfl⟩ := judge_valueReturn_eq_ok.mp hrun
      cases ha.symm.trans ha'
      exact .of_complained h (judge_kept ha).errors List.prefix_rfl
  | loopJump h =>
      obtain ⟨-, rfl⟩ := (judge_loopJump_eq_ok h).mp hrun
      exact .of_complained rfl List.prefix_rfl List.prefix_rfl
  | unknownFunction h =>
      obtain ⟨-, rfl⟩ := (judge_unknownCall_eq_ok h).mp hrun
      exact .of_complained rfl List.prefix_rfl List.prefix_rfl
  | argumentCount hg hcount =>
      obtain ⟨-, rfl⟩ := (judge_miscountedCall_eq_ok hg hcount).mp hrun
      exact .of_complained rfl List.prefix_rfl List.prefix_rfl
  | argument hg hcount he ht h =>
      obtain ⟨v, s₁, ha, -, rfl⟩ := (judge_call_eq_ok hg hcount).mp hrun
      obtain ⟨w, q, ht', herrors⟩ := he.run ha
      cases ht.symm.trans ht'
      exact .of_complained h (he.inside.errors.trans (judge_kept ht).errors) herrors
  | subscript ha hb h =>
      obtain ⟨a, s₁, ha', b, s₂, hb', -, rfl⟩ := judge_subscript_eq_ok.mp hrun
      cases ha.symm.trans ha'
      cases hb.symm.trans hb'
      exact .of_complained h ((judge_kept ha).errors.trans (judge_kept hb).errors) List.prefix_rfl

end Complete

/-- **Errors of a run.** What a run records are the errors of the checks of the parts that it comes
to, each with the note of its own check. -/
lemma errors_of_judge {e : Tree} {s s' : Checker} {t : Ty} (h : judge e s = .ok (t, s')) :
    ∃ found, s'.log.errors = s.log.errors ++ found ∧ ∀ d, d ∈ found ↔ Reported e s d := by
  obtain ⟨found, herrors, hfound⟩ := addsAt e s t s' h
  refine ⟨found, herrors, fun d => ⟨hfound d, ?_⟩⟩
  rintro ⟨u, r, c, hu, hc, rfl⟩
  obtain ⟨v, r', hrun, hlater⟩ := hu.run h
  obtain ⟨q, hq, hrecorded⟩ := hc.records hrun
  obtain ⟨before, hbefore⟩ := hu.inside.errors.trans hq
  have hprefix : s.log.errors ++ (before ++ [c.diagnostic]) <+: s.log.errors ++ found := by
    rw [← herrors, ← List.append_assoc, hbefore, ← q.errors_complained]
    exact hrecorded.trans hlater
  exact ((List.prefix_append_right_inj _).mp hprefix).subset (by simp)

end Fern.Typing
