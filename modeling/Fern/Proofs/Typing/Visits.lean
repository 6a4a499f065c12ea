import Fern.Proofs.Typing.Coverage

/-!
The states in which the parts of an expression are judged.

* `TurnsTo`: a run on an expression comes to a child in a given state, after the children before it.
* `Visits`: a run on an expression comes to a part at any depth.
* `Checker.Inside`: what a run inside another one finds: the same functions to call, the same
  declared return type, and all errors of the run around it so far.
* `TurnsTo.inside`, `TurnsTo.run`: what a run does before a child, and that it judges the child.
* `exists_visits`: **without a complaint, every part is judged**, if no name and no signature has
  the type of a failure.
-/

namespace Fern.Typing

/-! ### States inside a run -/

/-- The state `r` comes after `s`, with the same functions to call and the same declared return
type, and with all errors of `s`. -/
structure Checker.Inside (s r : Checker) : Prop where
  signatures : r.signatures = s.signatures
  returnType : r.returnType = s.returnType
  errors : s.log.errors <+: r.log.errors

namespace Checker.Inside

variable {s s₁ r : Checker}

lemma refl (s : Checker) : s.Inside s := ⟨rfl, rfl, List.prefix_rfl⟩

lemma trans (h : s.Inside s₁) (h' : s₁.Inside r) : s.Inside r :=
  ⟨h'.signatures.trans h.signatures, h'.returnType.trans h.returnType, h.errors.trans h'.errors⟩

/-- A whole run leads to such a state. -/
lemma of_judge {e : Tree} {t : Ty} (h : judge e s = .ok (t, r)) : s.Inside r :=
  have hkept := judge_kept h
  ⟨hkept.signatures, hkept.returnType, hkept.errors⟩

lemma opened (s : Checker) : s.Inside s.opened := ⟨rfl, rfl, List.prefix_rfl⟩

lemma complained (c : Option Complaint) (s : Checker) : s.Inside (s.complained c) :=
  ⟨rfl, rfl, s.prefix_complained_errors c⟩

lemma warned (b : Bool) (l : Location) (s : Checker) : s.Inside (s.warned b l) := by
  cases b <;> exact ⟨rfl, rfl, List.prefix_rfl⟩

end Checker.Inside

/-! ### The next child -/

/-- A run on statements comes to one of them. -/
inductive TurnsToStatement : Bool → List Tree → Checker → Tree → Checker → Prop
  | first {b e es s} : TurnsToStatement b (e :: es) s e (s.warned b e.location)
  | later {b e es s t s₁ c r} (hfirst : judge e (s.warned b e.location) = .ok (t, s₁))
      (hlater : TurnsToStatement e.isReturn es s₁ c r) : TurnsToStatement b (e :: es) s c r

/-- A run on arguments comes to one of them, and to the type of its parameter. Those before it are
of the types of their parameters. -/
inductive TurnsToArgument : List Ty → List Tree → Checker → Ty → Tree → Checker → Prop
  | first {p ps e es s} : TurnsToArgument (p :: ps) (e :: es) s p e s
  | later {p ps e es s s₁ q c r} (hvalid : p.isInvalid = false) (hfirst : judge e s = .ok (p, s₁))
      (hlater : TurnsToArgument ps es s₁ q c r) : TurnsToArgument (p :: ps) (e :: es) s q c r

/-- A run on an expression from `s` comes to a child `c` in the state `r`. -/
inductive TurnsTo : Tree → Checker → Tree → Checker → Prop
  | value {id l name stated value s} :
      TurnsTo (.node id l (.binding name stated value)) s value s
  | statement {id l statements s c r} (h : TurnsToStatement false statements s.opened c r) :
      TurnsTo (.node id l (.block statements)) s c r
  | condition {id l condition thenBlock elseBlock s} :
      TurnsTo (.node id l (.cond condition thenBlock elseBlock)) s condition s
  | thenBlock {id l condition thenBlock elseBlock s t s₁} (hc : judge condition s = .ok (t, s₁)) :
      TurnsTo (.node id l (.cond condition thenBlock elseBlock)) s thenBlock
        (s₁.complained (conditionComplaint t condition.location))
  | elseBlock {id l condition thenBlock elseBlock s t s₁ u s₂}
      (hc : judge condition s = .ok (t, s₁))
      (ht : judge thenBlock (s₁.complained (conditionComplaint t condition.location))
        = .ok (u, s₂)) :
      TurnsTo (.node id l (.cond condition thenBlock (some elseBlock))) s elseBlock s₂
  | left {id l operator left right s} : TurnsTo (.node id l (.binary operator left right)) s left s
  | right {id l operator left right s t s₁} (h : judge left s = .ok (t, s₁)) :
      TurnsTo (.node id l (.binary operator left right)) s right s₁
  | operand {id l operator operand s} : TurnsTo (.node id l (.unary operator operand)) s operand s
  | returned {id l value s} : TurnsTo (.node id l (.jump .returnWord (some value))) s value s
  | argument {id l callee arguments s g p c r} (hg : s.signatures.find? callee = some g)
      (hcount : g.parameters.length = arguments.length)
      (h : TurnsToArgument g.parameters arguments s p c r) :
      TurnsTo (.node id l (.call callee arguments)) s c r
  | subscripted {id l operand index s} : TurnsTo (.node id l (.subscript operand index)) s operand s
  | index {id l operand index s t s₁} (h : judge operand s = .ok (t, s₁)) :
      TurnsTo (.node id l (.subscript operand index)) s index s₁

/-- A run on an expression from `s` comes to a part `u`, which may be the whole, in the state
`r`. -/
inductive Visits : Tree → Checker → Tree → Checker → Prop
  | self (e s) : Visits e s e s
  | child {e s c r u q} (hc : TurnsTo e s c r) (hu : Visits c r u q) : Visits e s u q

/-! ### Before a child -/

section Before

variable {e c u : Tree} {es : List Tree} {b : Bool} {p : Ty} {ps : List Ty} {s r q : Checker}

lemma TurnsToStatement.mem (h : TurnsToStatement b es s c r) : c ∈ es := by
  induction h with
  | first => exact List.mem_cons_self
  | later _ _ ih => exact List.mem_cons_of_mem _ ih

lemma TurnsToArgument.mem (h : TurnsToArgument ps es s p c r) : c ∈ es := by
  induction h with
  | first => exact List.mem_cons_self
  | later _ _ _ ih => exact List.mem_cons_of_mem _ ih

/-- What a run comes to is a part of the expression. -/
lemma Visits.contains (h : Visits e s u q) : e.Contains u := by
  induction h with
  | self => exact .self _
  | child hc _ ih =>
      cases hc with
      | statement h => exact .child h.mem ih
      | argument _ _ h => exact .child h.mem ih
      | _ => exact .child (by simp [Shape.children]) ih

lemma TurnsToStatement.inside (h : TurnsToStatement b es s c r) : s.Inside r := by
  induction h with
  | first => exact .warned _ _ _
  | later hfirst _ ih =>
      exact (Checker.Inside.warned _ _ _).trans ((Checker.Inside.of_judge hfirst).trans ih)

lemma TurnsToArgument.inside (h : TurnsToArgument ps es s p c r) : s.Inside r := by
  induction h with
  | first => exact .refl _
  | later _ hfirst _ ih => exact (Checker.Inside.of_judge hfirst).trans ih

/-- What comes before a child leaves the functions to call and the declared return type alone, and
only ever adds errors. -/
lemma TurnsTo.inside (h : TurnsTo e s c r) : s.Inside r := by
  cases h with
  | statement h => exact (Checker.Inside.opened s).trans h.inside
  | thenBlock hc => exact (Checker.Inside.of_judge hc).trans (.complained _ _)
  | elseBlock hc ht =>
      exact (Checker.Inside.of_judge hc).trans
        ((Checker.Inside.complained _ _).trans (.of_judge ht))
  | right h => exact .of_judge h
  | argument _ _ h => exact h.inside
  | index h => exact .of_judge h
  | _ => exact .refl _

/-- Wherever a run comes to, the same functions can be called. -/
lemma Visits.inside (h : Visits e s u q) : s.Inside q := by
  induction h with
  | self => exact .refl _
  | child hc _ ih => exact hc.inside.trans ih

end Before

/-! ### After a child -/

section After

variable {e c u : Tree} {es : List Tree} {b : Bool} {ps : List Ty} {s s' r q : Checker} {t : Ty}

lemma TurnsToStatement.run (h : TurnsToStatement b es s c r) {v : Ty}
    (hrun : judgeStatements b v es s = .ok (t, s')) :
    ∃ u r', judge c r = .ok (u, r') ∧ r'.log.errors <+: s'.log.errors := by
  induction h generalizing v with
  | first =>
      obtain ⟨u, r', hc, hrest⟩ := judgeStatements_cons_eq_ok.mp hrun
      exact ⟨u, r', hc, (judgeStatements_kept hrest).errors⟩
  | later hfirst _ ih =>
      obtain ⟨u, s₁, he, hrest⟩ := judgeStatements_cons_eq_ok.mp hrun
      cases hfirst.symm.trans he
      exact ih hrest

/-- An argument of the type of its parameter is judged, and then the others. -/
lemma judgeArguments_accepted_eq_ok {callee : String} {p : Ty} {s₁ : Checker}
    (hvalid : p.isInvalid = false) (he : judge e s = .ok (p, s₁)) :
    judgeArguments callee (p :: ps) (e :: es) s = .ok (b, s') ↔
      judgeArguments callee ps es s₁ = .ok (b, s') := by
  have hnone : ∀ l, argumentComplaint callee p p l = none :=
    fun _ => (argumentComplaint_eq_none hvalid).mpr rfl
  have hpass : ¬(p.isInvalid || decide (p ≠ p)) = true := by simp [hvalid]
  rw [judgeArguments_cons_eq_ok]
  constructor
  · rintro ⟨u, s₂, he', hrest⟩
    cases he.symm.trans he'
    rw [if_neg hpass, hnone] at hrest
    exact hrest
  · intro hrest
    refine ⟨p, s₁, he, ?_⟩
    rw [if_neg hpass, hnone]
    exact hrest

lemma TurnsToArgument.run {p : Ty} (h : TurnsToArgument ps es s p c r) {callee : String}
    (hrun : judgeArguments callee ps es s = .ok (b, s')) :
    ∃ u r', judge c r = .ok (u, r') ∧
      (r'.complained (argumentComplaint callee p u c.location)).log.errors <+: s'.log.errors := by
  induction h with
  | first =>
      obtain ⟨u, r', hc, hrest⟩ := judgeArguments_cons_eq_ok.mp hrun
      refine ⟨u, r', hc, ?_⟩
      split at hrest
      · rw [hrest.2]
      · exact (judgeArguments_kept hrest).errors
  | later hvalid hfirst _ ih => exact ih ((judgeArguments_accepted_eq_ok hvalid hfirst).mp hrun)

/-- A run on an expression judges the children that it comes to, and what it does after them only
ever adds errors. -/
lemma TurnsTo.run (h : TurnsTo e s c r) (hrun : judge e s = .ok (t, s')) :
    ∃ u r', judge c r = .ok (u, r') ∧ r'.log.errors <+: s'.log.errors := by
  cases h with
  | @value _ l name stated =>
      obtain ⟨u, s₁, hv, -, rfl⟩ := judge_binding_eq_ok.mp hrun
      have hstated := s₁.prefix_complained_errors (annotationComplaint name stated u l)
      exact ⟨u, s₁, hv, hstated.trans (Checker.prefix_complained_errors _ _)⟩
  | statement h =>
      obtain ⟨u, s₁, hb, -, rfl⟩ := judge_block_eq_ok.mp hrun
      obtain ⟨v, r', hc, herrors⟩ := h.run hb
      exact ⟨v, r', hc, herrors⟩
  | @condition _ l _ _ elseBlock =>
      cases elseBlock with
      | none =>
          obtain ⟨v, s₁, hc, u, s₂, ht, -, rfl⟩ := judge_cond_eq_ok.mp hrun
          exact ⟨v, s₁, hc, (s₁.prefix_complained_errors _).trans (judge_kept ht).errors⟩
      | some elseBlock =>
          obtain ⟨v, s₁, hc, u, s₂, ht, w, s₃, he, -, rfl⟩ := judge_condElse_eq_ok.mp hrun
          have harms := (judge_kept he).errors.trans
            (s₃.prefix_complained_errors (armsComplaint u w l))
          have harms' := (judge_kept ht).errors.trans harms
          exact ⟨v, s₁, hc, (s₁.prefix_complained_errors _).trans harms'⟩
  | @thenBlock _ _ _ _ elseBlock _ _ _ hc =>
      cases elseBlock with
      | none =>
          obtain ⟨v, s₁, hc', u, s₂, ht, -, rfl⟩ := judge_cond_eq_ok.mp hrun
          cases hc.symm.trans hc'
          exact ⟨u, s₂, ht, List.prefix_rfl⟩
      | some elseBlock =>
          obtain ⟨v, s₁, hc', u, s₂, ht, w, s₃, he, -, rfl⟩ := judge_condElse_eq_ok.mp hrun
          cases hc.symm.trans hc'
          exact ⟨u, s₂, ht, (judge_kept he).errors.trans (s₃.prefix_complained_errors _)⟩
  | elseBlock hc ht =>
      obtain ⟨v, s₁, hc', u, s₂, ht', w, s₃, he, -, rfl⟩ := judge_condElse_eq_ok.mp hrun
      cases hc.symm.trans hc'
      cases ht.symm.trans ht'
      exact ⟨w, s₃, he, s₃.prefix_complained_errors _⟩
  | left =>
      obtain ⟨a, s₁, ha, v, s₂, hb, -, rfl⟩ := judge_binary_eq_ok.mp hrun
      exact ⟨a, s₁, ha, (judge_kept hb).errors.trans (s₂.prefix_complained_errors _)⟩
  | right h =>
      obtain ⟨a, s₁, ha, v, s₂, hb, -, rfl⟩ := judge_binary_eq_ok.mp hrun
      cases h.symm.trans ha
      exact ⟨v, s₂, hb, s₂.prefix_complained_errors _⟩
  | operand =>
      obtain ⟨a, s₁, ha, -, rfl⟩ := judge_unary_eq_ok.mp hrun
      exact ⟨a, s₁, ha, s₁.prefix_complained_errors _⟩
  | returned =>
      obtain ⟨a, s₁, ha, -, rfl⟩ := judge_valueReturn_eq_ok.mp hrun
      exact ⟨a, s₁, ha, s₁.prefix_complained_errors _⟩
  | argument hg hcount h =>
      obtain ⟨v, s₁, ha, -, rfl⟩ := (judge_call_eq_ok hg hcount).mp hrun
      obtain ⟨u, r', hc, herrors⟩ := h.run ha
      exact ⟨u, r', hc, (r'.prefix_complained_errors _).trans herrors⟩
  | subscripted =>
      obtain ⟨a, s₁, ha, v, s₂, hb, -, rfl⟩ := judge_subscript_eq_ok.mp hrun
      exact ⟨a, s₁, ha, (judge_kept hb).errors.trans (s₂.prefix_complained_errors _)⟩
  | index h =>
      obtain ⟨a, s₁, ha, v, s₂, hb, -, rfl⟩ := judge_subscript_eq_ok.mp hrun
      cases h.symm.trans ha
      exact ⟨v, s₂, hb, s₂.prefix_complained_errors _⟩

/-- A run on an expression judges every part that it comes to. -/
lemma Visits.run (h : Visits e s u q) (hrun : judge e s = .ok (t, s')) :
    ∃ v q', judge u q = .ok (v, q') ∧ q'.log.errors <+: s'.log.errors := by
  induction h generalizing t s' with
  | self => exact ⟨t, s', hrun, List.prefix_rfl⟩
  | child hc _ ih =>
      obtain ⟨v, r', hchild, herrors⟩ := hc.run hrun
      obtain ⟨w, q', hu, herrors'⟩ := ih hchild
      exact ⟨w, q', hu, herrors'.trans herrors⟩

end After

/-! ### Runs without a complaint -/

section Quiet

variable {e c u : Tree} {es : List Tree} {b : Bool} {ps : List Ty} {s s' r q : Checker} {t : Ty}

/-- A run from a clean state that records no error gives the type of a value and leaves a clean
state. -/
lemma Checker.Clean.judge (hs : s.Clean) (hrun : judge e s = .ok (t, s'))
    (hquiet : s'.log.errors = s.log.errors) : t.isInvalid = false ∧ s'.Clean := by
  obtain ⟨ht, hcovers⟩ :=
    coveredAt e (fun u _ => admits_valid s.returnType u) s t s' hs rfl hrun hquiet
  exact ⟨ht, hcovers.clean (judge_kept hrun) hs⟩

lemma Checker.Clean.complained (hs : s.Clean) (c : Option Complaint) : (s.complained c).Clean :=
  ⟨hs.scopes, hs.signatures⟩

lemma TurnsToStatement.clean (h : TurnsToStatement b es s c r) (hs : s.Clean)
    (hquiet : r.log.errors = s.log.errors) : r.Clean := by
  induction h with
  | first => exact hs.warned _ _
  | @later b e _ s _ _ _ _ hfirst hlater ih =>
      rw [← warned_errors b e.location s] at hquiet
      obtain ⟨h₁, h₂⟩ := prefix_squeeze (judge_kept hfirst).errors hlater.inside.errors hquiet
      exact ih ((hs.warned _ _).judge hfirst h₁).2 h₂

lemma TurnsToArgument.clean {p : Ty} (h : TurnsToArgument ps es s p c r) (hs : s.Clean)
    (hquiet : r.log.errors = s.log.errors) : r.Clean := by
  induction h with
  | first => exact hs
  | later _ hfirst hlater ih =>
      obtain ⟨h₁, h₂⟩ := prefix_squeeze (judge_kept hfirst).errors hlater.inside.errors hquiet
      exact ih (hs.judge hfirst h₁).2 h₂

/-- If nothing was complained of before a child, the state in which it is judged is clean. -/
lemma TurnsTo.clean (h : TurnsTo e s c r) (hs : s.Clean)
    (hquiet : r.log.errors = s.log.errors) : r.Clean := by
  cases h with
  | statement h => exact h.clean hs.opened hquiet
  | thenBlock hc =>
      obtain ⟨h₁, -⟩ :=
        prefix_squeeze (judge_kept hc).errors (Checker.prefix_complained_errors _ _) hquiet
      exact (hs.judge hc h₁).2.complained _
  | elseBlock hc ht =>
      obtain ⟨h₁, h₂⟩ := prefix_squeeze (judge_kept hc).errors
        ((Checker.prefix_complained_errors _ _).trans (judge_kept ht).errors) hquiet
      obtain ⟨h₃, h₄⟩ :=
        prefix_squeeze (Checker.prefix_complained_errors _ _) (judge_kept ht).errors h₂
      exact (((hs.judge hc h₁).2.complained _).judge ht h₄).2
  | right h => exact (hs.judge h hquiet).2
  | argument _ _ h => exact h.clean hs hquiet
  | index h => exact (hs.judge h hquiet).2
  | _ => exact hs

lemma exists_turnsToStatement {v : Ty} (hrun : judgeStatements b v es s = .ok (t, s')) :
    ∀ c ∈ es, ∃ r, TurnsToStatement b es s c r := by
  induction es generalizing b v s with
  | nil => simp
  | cons e es ih =>
      obtain ⟨u, s₁, he, hrest⟩ := judgeStatements_cons_eq_ok.mp hrun
      intro c hc
      rcases List.mem_cons.mp hc with rfl | hc
      · exact ⟨_, .first⟩
      · obtain ⟨r, hr⟩ := ih hrest c hc
        exact ⟨r, .later he hr⟩

/-- Without a complaint no argument ends the checking of a call. -/
lemma exists_turnsToArgument {callee : String} (hcount : ps.length = es.length) (hs : s.Clean)
    (hrun : judgeArguments callee ps es s = .ok (b, s')) (hquiet : s'.log.errors = s.log.errors) :
    ∀ c ∈ es, ∃ p r, TurnsToArgument ps es s p c r := by
  induction es generalizing ps s with
  | nil => simp
  | cons e es ih =>
      cases ps with
      | nil => cases hcount
      | cons p ps =>
          obtain ⟨u, s₁, he, herrors⟩ := TurnsToArgument.first.run hrun
          obtain ⟨hnone, h₁, -⟩ := judge_quiet he herrors hquiet
          obtain ⟨hvalid, hs₁⟩ := hs.judge he h₁
          obtain rfl := (argumentComplaint_eq_none hvalid).mp hnone
          intro c hc
          rcases List.mem_cons.mp hc with rfl | hc
          · exact ⟨u, s, .first⟩
          · have hrest := (judgeArguments_accepted_eq_ok hvalid he).mp hrun
            obtain ⟨q, r, hr⟩ := ih (by simpa using hcount) hs₁ hrest (hquiet.trans h₁.symm) c hc
            exact ⟨q, r, .later hvalid he hr⟩

/-- A run from a clean state that records no error comes to every child. -/
lemma exists_turnsTo {id : NodeId} {l : Location} {shape : Shape Tree} (hs : s.Clean)
    (hrun : judge (.node id l shape) s = .ok (t, s')) (hquiet : s'.log.errors = s.log.errors) :
    ∀ c ∈ shape.children, ∃ r, TurnsTo (.node id l shape) s c r := by
  cases shape with
  | number => simp [Shape.children]
  | boolean => simp [Shape.children]
  | string => simp [Shape.children]
  | char => simp [Shape.children]
  | var => simp [Shape.children]
  | binding => exact List.forall_mem_singleton.mpr ⟨s, .value⟩
  | block statements =>
      obtain ⟨u, s₁, hb, -, -⟩ := judge_block_eq_ok.mp hrun
      intro c hc
      obtain ⟨r, hr⟩ := exists_turnsToStatement hb c hc
      exact ⟨r, .statement hr⟩
  | cond condition thenBlock elseBlock =>
      cases elseBlock with
      | none =>
          obtain ⟨v, s₁, hc, -⟩ := judge_cond_eq_ok.mp hrun
          exact Tree.forall_mem_two ⟨s, .condition⟩ ⟨_, .thenBlock hc⟩
      | some elseBlock =>
          obtain ⟨v, s₁, hc, u, s₂, ht, -⟩ := judge_condElse_eq_ok.mp hrun
          exact List.forall_mem_cons.mpr ⟨⟨s, .condition⟩,
            Tree.forall_mem_two ⟨_, .thenBlock hc⟩ ⟨s₂, .elseBlock hc ht⟩⟩
  | binary =>
      obtain ⟨a, s₁, ha, -⟩ := judge_binary_eq_ok.mp hrun
      exact Tree.forall_mem_two ⟨s, .left⟩ ⟨s₁, .right ha⟩
  | unary => exact List.forall_mem_singleton.mpr ⟨s, .operand⟩
  | jump operator value =>
      by_cases hop : operator = .returnWord
      · subst hop
        cases value with
        | none => simp [Shape.children]
        | some value => exact List.forall_mem_singleton.mpr ⟨s, .returned⟩
      · obtain ⟨-, rfl⟩ := (judge_loopJump_eq_ok hop).mp hrun
        cases complained_errors_iff.mp hquiet
  | call callee arguments =>
      cases hg : s.signatures.find? callee with
      | none =>
          obtain ⟨-, rfl⟩ := (judge_unknownCall_eq_ok hg).mp hrun
          cases complained_errors_iff.mp hquiet
      | some g =>
          by_cases hcount : g.parameters.length = arguments.length
          · obtain ⟨b, s₁, ha, -, rfl⟩ := (judge_call_eq_ok hg hcount).mp hrun
            intro c hc
            obtain ⟨p, r, hr⟩ := exists_turnsToArgument hcount hs ha hquiet c hc
            exact ⟨r, .argument hg hcount hr⟩
          · obtain ⟨-, rfl⟩ := (judge_miscountedCall_eq_ok hg hcount).mp hrun
            cases complained_errors_iff.mp hquiet
  | subscript =>
      obtain ⟨a, s₁, ha, -⟩ := judge_subscript_eq_ok.mp hrun
      exact Tree.forall_mem_two ⟨s, .subscripted⟩ ⟨s₁, .index ha⟩

/-- **Every part is judged.** A run from a clean state that records no error comes to all parts of
the expression. -/
lemma exists_visits (hu : e.Contains u) (hs : s.Clean) (hrun : judge e s = .ok (t, s'))
    (hquiet : s'.log.errors = s.log.errors) : ∃ r, Visits e s u r := by
  induction hu generalizing s t s' with
  | self => exact ⟨s, .self _ s⟩
  | child hc _ ih =>
      obtain ⟨r, hr⟩ := exists_turnsTo hs hrun hquiet _ hc
      obtain ⟨v, r', hchild, herrors⟩ := hr.run hrun
      obtain ⟨h₁, h₂⟩ :=
        prefix_squeeze hr.inside.errors ((judge_kept hchild).errors.trans herrors) hquiet
      obtain ⟨h₃, -⟩ := prefix_squeeze (judge_kept hchild).errors herrors h₂
      obtain ⟨q, hq⟩ := ih (hr.clean hs h₁) hchild h₃
      exact ⟨q, .child hr hq⟩

end Quiet

end Fern.Typing
