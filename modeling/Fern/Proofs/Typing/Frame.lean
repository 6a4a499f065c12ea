import Fern.Proofs.Program.Subtree
import Fern.Proofs.Typing.Steps
import Fern.Proofs.Typing.Verdict

/-!
What every run of the checker leaves as it was.

* `Stepwise`, `judge_stepwise`: what each elementary step keeps, a whole run keeps. The steps of a
  run on an expression enter types of its parts only, and complain about the places of its parts
  only.
* `Kept`, `judge_kept`: a run on an expression changes neither the signatures nor the declared
  return type nor any scope but the innermost, and it only ever adds errors at the end.
-/

namespace Fern.Typing

/-- A relation between an earlier and a later state that holds whatever elementary steps lie between
them, as long as these are about numbers in `I` and places in `P`. -/
structure Stepwise (I : NodeId → Prop) (P : Location → Prop) (R : Checker → Checker → Prop) :
    Prop where
  refl : ∀ s, R s s
  trans : ∀ {s₁ s₂ s₃}, R s₁ s₂ → R s₂ s₃ → R s₁ s₃
  typed : ∀ {id}, I id → ∀ t s, R s (s.typed id t)
  complained : ∀ {c}, PointsInto P c → ∀ s, R s (s.complained c)
  bound : ∀ name t s, R s (s.bound name t)
  warned : ∀ {l}, P l → ∀ b s, R s (s.warned b l)
  block : ∀ {s s₁}, R s.opened s₁ → R s s₁.closed

namespace Stepwise

variable {I : NodeId → Prop} {P : Location → Prop} {R : Checker → Checker → Prop}

lemma settled (h : Stepwise I P R) {id : NodeId} {v : Verdict} (hid : I id)
    (hv : PointsInto P v.complaint) (s : Checker) : R s (s.settled id v) :=
  h.trans (h.complained hv _) (h.typed hid _ _)

lemma declaring (h : Stepwise I P R) (name : String) (t : Ty) {l : Location} (hl : P l)
    (s : Checker) : R s (s.declaring name t l) :=
  h.trans (h.complained (pointsInto_complainIf hl) _) (h.bound _ _ _)

/-- Statements keep what each of them keeps. -/
lemma statements (h : Stepwise I P R) {ts : List Tree} (hts : ∀ e ∈ ts, P e.location)
    (ih : ∀ e ∈ ts, ∀ s t s', judge e s = .ok (t, s') → R s s') :
    ∀ b u s t s', judgeStatements b u ts s = .ok (t, s') → R s s' := by
  induction ts with
  | nil =>
      intro b u s t s' hs
      obtain ⟨-, rfl⟩ := judgeStatements_nil_eq_ok.mp hs
      exact h.refl s'
  | cons e es ihes =>
      intro b u s t s' hs
      obtain ⟨v, s₁, he, hes⟩ := judgeStatements_cons_eq_ok.mp hs
      have h₁ := h.trans (h.warned (hts e (by simp)) b s) (ih e (by simp) _ _ _ he)
      exact h.trans h₁ (ihes (fun x hx => hts x (by simp [hx])) (fun x hx => ih x (by simp [hx]))
        _ _ _ _ _ hes)

/-- Arguments keep what each of them keeps. -/
lemma arguments (h : Stepwise I P R) {callee : String} {ts : List Tree}
    (hts : ∀ e ∈ ts, P e.location)
    (ih : ∀ e ∈ ts, ∀ s t s', judge e s = .ok (t, s') → R s s') :
    ∀ ps s b s', judgeArguments callee ps ts s = .ok (b, s') → R s s' := by
  induction ts with
  | nil =>
      intro ps s b s' hs
      have hs' : judgeArguments callee ps [] s = .ok (true, s) := by cases ps <;> rfl
      rw [hs'] at hs
      cases hs
      exact h.refl s
  | cons e es ihes =>
      intro ps s b s' hs
      cases ps with
      | nil => cases hs; exact h.refl s
      | cons p ps =>
          obtain ⟨u, s₁, he, hes⟩ := judgeArguments_cons_eq_ok.mp hs
          have hcomplaint : PointsInto P (argumentComplaint callee p u e.location) :=
            pointsInto_complainIf (hts e (by simp))
          have h₁ := h.trans (ih e (by simp) _ _ _ he) (h.complained hcomplaint s₁)
          split at hes
          · rw [hes.2]
            exact h₁
          · exact h.trans h₁ (ihes (fun x hx => hts x (by simp [hx]))
              (fun x hx => ih x (by simp [hx])) _ _ _ _ hes)

end Stepwise

/-- What each elementary step keeps, a whole run on an expression with parts in `I` and `P`
keeps. -/
theorem judge_stepwise {I : NodeId → Prop} {P : Location → Prop} {R : Checker → Checker → Prop}
    (h : Stepwise I P R) (e : Tree) (hparts : ∀ u, e.Contains u → I u.id ∧ P u.location) :
    ∀ s t s', judge e s = .ok (t, s') → R s s' := by
  induction e using Tree.childInduction with
  | missing id =>
      intro s t s' hs
      rw [judge_missing] at hs
      cases hs
  | node id l shape ih =>
      intro s t s' hs
      replace ih : ∀ c ∈ shape.children, ∀ s t s', judge c s = .ok (t, s') → R s s' :=
        fun c hc => ih c hc fun u hu => hparts u (.child hc hu)
      have hplace : ∀ c ∈ shape.children, P c.location :=
        fun c hc => (hparts c (.child hc (.self c))).2
      obtain ⟨hid, hl⟩ : I id ∧ P l := hparts _ (.self _)
      cases shape with
      | number =>
          obtain ⟨-, rfl⟩ := judge_number_eq_ok.mp hs
          exact h.typed hid _ _
      | boolean =>
          obtain ⟨-, rfl⟩ := judge_boolean_eq_ok.mp hs
          exact h.typed hid _ _
      | string =>
          obtain ⟨-, rfl⟩ := judge_string_eq_ok.mp hs
          exact h.typed hid _ _
      | char =>
          obtain ⟨-, rfl⟩ := judge_char_eq_ok.mp hs
          exact h.typed hid _ _
      | var name =>
          cases hlookup : s.scopes.lookup name with
          | some u =>
              obtain ⟨-, rfl⟩ := (judge_bound_eq_ok hlookup).mp hs
              exact h.typed hid _ _
          | none =>
              obtain ⟨-, rfl⟩ := (judge_unbound_eq_ok hlookup).mp hs
              exact h.settled hid (pointsInto_some hl) _
      | binding name stated value =>
          obtain ⟨u, s₁, hv, -, rfl⟩ := judge_binding_eq_ok.mp hs
          have hstated : PointsInto P (annotationComplaint name stated u l) :=
            pointsInto_annotationComplaint hl
          refine h.trans (ih value (by simp [Shape.children]) _ _ _ hv) ?_
          refine h.trans (h.complained hstated _) ?_
          exact h.trans (h.declaring _ _ hl _) (h.typed hid _ _)
      | block statements =>
          obtain ⟨u, s₁, hb, -, rfl⟩ := judge_block_eq_ok.mp hs
          exact h.trans (h.block (h.statements hplace ih _ _ _ _ _ hb)) (h.typed hid _ _)
      | cond condition thenBlock elseBlock =>
          have hcondition : P condition.location := hplace condition (by simp [Shape.children])
          cases elseBlock with
          | none =>
              obtain ⟨c, s₁, hc, u, s₂, ht, -, rfl⟩ := judge_cond_eq_ok.mp hs
              have htruth : PointsInto P (conditionComplaint c condition.location) :=
                pointsInto_complainIf hcondition
              refine h.trans (ih condition (by simp [Shape.children]) _ _ _ hc) ?_
              refine h.trans (h.complained htruth _) ?_
              exact h.trans (ih thenBlock (by simp [Shape.children]) _ _ _ ht) (h.typed hid _ _)
          | some elseBlock =>
              obtain ⟨c, s₁, hc, u, s₂, ht, e, s₃, he, -, rfl⟩ := judge_condElse_eq_ok.mp hs
              have htruth : PointsInto P (conditionComplaint c condition.location) :=
                pointsInto_complainIf hcondition
              refine h.trans (ih condition (by simp [Shape.children]) _ _ _ hc) ?_
              refine h.trans (h.complained htruth _) ?_
              have harms : PointsInto P (armsComplaint u e l) := pointsInto_complainIf hl
              refine h.trans (ih thenBlock (by simp [Shape.children]) _ _ _ ht) ?_
              refine h.trans (ih elseBlock (by simp [Shape.children]) _ _ _ he) ?_
              exact h.trans (h.complained harms _) (h.typed hid _ _)
      | binary operator left right =>
          obtain ⟨a, s₁, ha, b, s₂, hb, -, rfl⟩ := judge_binary_eq_ok.mp hs
          have h₁ := h.trans (ih left (by simp [Shape.children]) _ _ _ ha)
            (ih right (by simp [Shape.children]) _ _ _ hb)
          exact h.trans h₁ (h.settled hid (pointsInto_ofBinary hl) _)
      | unary operator operand =>
          obtain ⟨a, s₁, ha, -, rfl⟩ := judge_unary_eq_ok.mp hs
          exact h.trans (ih operand (by simp [Shape.children]) _ _ _ ha)
            (h.settled hid (pointsInto_ofUnary hl) _)
      | jump operator value =>
          by_cases hop : operator = .returnWord
          · subst hop
            cases value with
            | none =>
                obtain ⟨-, rfl⟩ := judge_bareReturn_eq_ok.mp hs
                exact h.settled hid (pointsInto_ofReturn hl) _
            | some value =>
                obtain ⟨a, s₁, ha, -, rfl⟩ := judge_valueReturn_eq_ok.mp hs
                exact h.trans (ih value (by simp [Shape.children]) _ _ _ ha)
                  (h.settled hid (pointsInto_ofReturn hl) _)
          · obtain ⟨-, rfl⟩ := (judge_loopJump_eq_ok hop).mp hs
            exact h.settled hid (pointsInto_some hl) _
      | call callee arguments =>
          cases hg : s.signatures.find? callee with
          | none =>
              obtain ⟨-, rfl⟩ := (judge_unknownCall_eq_ok hg).mp hs
              exact h.settled hid (pointsInto_some hl) _
          | some g =>
              by_cases hcount : g.parameters.length = arguments.length
              · obtain ⟨b, s₁, ha, -, rfl⟩ := (judge_call_eq_ok hg hcount).mp hs
                exact h.trans (h.arguments hplace ih _ _ _ _ ha) (h.typed hid _ _)
              · obtain ⟨-, rfl⟩ := (judge_miscountedCall_eq_ok hg hcount).mp hs
                exact h.settled hid (pointsInto_some hl) _
      | subscript operand index =>
          obtain ⟨a, s₁, ha, b, s₂, hb, -, rfl⟩ := judge_subscript_eq_ok.mp hs
          have h₁ := h.trans (ih operand (by simp [Shape.children]) _ _ _ ha)
            (ih index (by simp [Shape.children]) _ _ _ hb)
          have hindex : P index.location := hplace index (by simp [Shape.children])
          exact h.trans h₁ (h.settled hid (pointsInto_ofSubscript hl hindex) _)

/-! ### The frame of a run -/

/-- What the checking of an expression leaves as it was. -/
structure Kept (s s' : Checker) : Prop where
  signatures : s'.signatures = s.signatures
  returnType : s'.returnType = s.returnType
  outer : s'.scopes.tail = s.scopes.tail
  errors : s.log.errors <+: s'.log.errors

/-- A complaint is recorded as one error at its place, with or without a note. -/
lemma Complaint.exists_record (c : Complaint) (g : Log) :
    ∃ d : Diagnostic, d.location = c.location ∧ c.record g = g.record d := by
  cases hn : c.note with
  | none => exact ⟨.error c.problem c.location, rfl, by simp only [Complaint.record, hn]; rfl⟩
  | some note =>
      refine ⟨(Diagnostic.error c.problem c.location).addNote note, rfl, ?_⟩
      simp only [Complaint.record, hn, Log.recordNote, Log.recordError, Log.record,
        modifyLast_append_singleton]

lemma Checker.prefix_complained_errors (c : Option Complaint) (s : Checker) :
    s.log.errors <+: (s.complained c).log.errors := by
  cases c with
  | none => exact List.prefix_rfl
  | some c =>
      obtain ⟨d, -, hd⟩ := c.exists_record s.log
      exact ⟨[d], congrArg Log.errors hd.symm⟩

/-- Anything of the sort in question. -/
abbrev Any {α : Type} (_ : α) : Prop := True

lemma stepwise_kept : Stepwise Any Any Kept where
  refl _ := ⟨rfl, rfl, rfl, List.prefix_rfl⟩
  trans h h' :=
    ⟨h'.signatures.trans h.signatures, h'.returnType.trans h.returnType, h'.outer.trans h.outer,
      h.errors.trans h'.errors⟩
  typed _ _ _ := ⟨rfl, rfl, rfl, List.prefix_rfl⟩
  complained _ s := ⟨rfl, rfl, rfl, s.prefix_complained_errors _⟩
  bound name t s := by
    refine ⟨rfl, rfl, ?_, List.prefix_rfl⟩
    simp only [Checker.bound]
    cases s.scopes <;> rfl
  warned _ b s := by
    cases b <;> exact ⟨rfl, rfl, rfl, List.prefix_rfl⟩
  block h :=
    ⟨h.signatures, h.returnType, congrArg List.tail h.outer, h.errors⟩

/-- A run keeps the signatures, the declared return type, all outer scopes and all errors. -/
theorem judge_kept {e : Tree} {s s' : Checker} {t : Ty} (h : judge e s = .ok (t, s')) :
    Kept s s' :=
  judge_stepwise stepwise_kept e (fun _ _ => ⟨trivial, trivial⟩) s t s' h

/-- A block leaves the scopes as they were. -/
lemma judgeStatements_kept {ts : List Tree} {b : Bool} {u t : Ty} {s s' : Checker}
    (h : judgeStatements b u ts s = .ok (t, s')) : Kept s s' :=
  stepwise_kept.statements (fun _ _ => trivial) (fun _ _ _ _ _ he => judge_kept he) _ _ _ _ _ h

lemma judgeArguments_kept {callee : String} {ps : List Ty} {ts : List Tree} {b : Bool}
    {s s' : Checker} (h : judgeArguments callee ps ts s = .ok (b, s')) : Kept s s' :=
  stepwise_kept.arguments (fun _ _ => trivial) (fun _ _ _ _ _ he => judge_kept he) _ _ _ _ h

end Fern.Typing
