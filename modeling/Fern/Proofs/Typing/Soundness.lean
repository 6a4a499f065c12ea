import Fern.Proofs.Typing.Frame
import Fern.Proofs.Typing.Verdict

/-!
A run of the checker without a complaint is a derivation of the judgement.

* `ValidScopes`, `HasType.valid`: where no name has the type of a failure, no expression gets it,
  and no name gets it later on.
* `Ready`: the checker is about to judge an expression, under given signatures and a given declared
  return type, with valid types in all scopes.
* `SoundAt`: every run on an expression from such a state that records no error is a derivation;
  `SoundAt.step` for a run that is part of a longer one, `SoundAt.binding` and its companions for
  the forms.
* `hasType_of_judge`: if a run from such a state records no error, then the expression has the type
  that the run gives it, and the scopes after the run are those of the judgement.
-/

namespace Fern.Typing

/-! ### Valid scopes -/

/-- No name in the scopes has the type of a failure. -/
def ValidScopes (Γ : Scopes Ty) : Prop := ∀ bs ∈ Γ, ∀ p ∈ bs, p.2.isInvalid = false

lemma mem_of_find? {α : Type} {name : String} {t : α} {bs : Bindings α}
    (h : bs.find? name = some t) : (name, t) ∈ bs := by
  induction bs with
  | nil => cases h
  | cons p bs ih =>
      obtain ⟨n, u⟩ := p
      by_cases hn : n = name
      · simp only [Bindings.find?, hn, if_true, Option.some.injEq] at h
        simp [hn, h]
      · simp only [Bindings.find?, hn, if_false] at h
        exact List.mem_cons_of_mem _ (ih h)

lemma mem_set {α : Type} {name : String} {t : α} {bs : Bindings α} {p : String × α}
    (h : p ∈ bs.set name t) : p = (name, t) ∨ p ∈ bs := by
  induction bs with
  | nil => exact .inl (by simpa [Bindings.set] using h)
  | cons q bs ih =>
      obtain ⟨n, u⟩ := q
      by_cases hn : n = name
      · simp only [Bindings.set, hn, if_true, List.mem_cons] at h
        rcases h with rfl | h
        · exact .inl rfl
        · exact .inr (List.mem_cons_of_mem _ h)
      · simp only [Bindings.set, hn, if_false, List.mem_cons] at h
        rcases h with rfl | h
        · exact .inr List.mem_cons_self
        · exact (ih h).imp_right (List.mem_cons_of_mem _)

namespace ValidScopes

variable {Γ : Scopes Ty}

lemma lookup (h : ValidScopes Γ) {name : String} {t : Ty} (ht : Γ.lookup name = some t) :
    t.isInvalid = false := by
  induction Γ with
  | nil => cases ht
  | cons bs Γ ih =>
      rw [Scopes.lookup, Option.or_eq_some_iff] at ht
      rcases ht with ht | ⟨-, ht⟩
      · exact h bs List.mem_cons_self _ (mem_of_find? ht)
      · exact ih (fun cs hcs => h cs (List.mem_cons_of_mem _ hcs)) ht

lemma push (h : ValidScopes Γ) : ValidScopes Γ.push := by
  intro bs hbs p hp
  rcases List.mem_cons.mp hbs with rfl | hbs
  · cases hp
  · exact h bs hbs p hp

lemma bind (h : ValidScopes Γ) {name : String} {t : Ty} (ht : t.isInvalid = false) :
    ValidScopes (Γ.bind name t) := by
  cases Γ with
  | nil => exact h
  | cons bs Γ =>
      intro cs hcs p hp
      rcases List.mem_cons.mp hcs with rfl | hcs
      · rcases mem_set hp with rfl | hp
        · exact ht
        · exact h bs List.mem_cons_self p hp
      · exact h cs (List.mem_cons_of_mem _ hcs) p hp

end ValidScopes

section Judgement

variable {callable : String → Option Signature} {declared : Ty}

mutual

/-- In valid scopes an expression has a valid type and leaves valid scopes behind. -/
theorem HasType.valid
    (hresult : ∀ name g, callable name = some g → g.returnType.isInvalid = false)
    {Γ Γ' : Scopes Ty} {e : Tree} {t : Ty} (h : HasType callable declared Γ e t Γ')
    (hΓ : ValidScopes Γ) : t.isInvalid = false ∧ ValidScopes Γ' := by
  cases h with
  | number => exact ⟨by split <;> rfl, hΓ⟩
  | boolean => exact ⟨rfl, hΓ⟩
  | string => exact ⟨rfl, hΓ⟩
  | char => exact ⟨rfl, hΓ⟩
  | var bound => exact ⟨hΓ.lookup bound, hΓ⟩
  | binding hvalue =>
      obtain ⟨ht, hΓ'⟩ := hvalue.valid hresult hΓ
      exact ⟨ht, hΓ'.bind ht⟩
  | block inner => exact ⟨(inner.valid hresult hΓ.push).1, hΓ⟩
  | cond hcond hthen => exact hthen.valid hresult (hcond.valid hresult hΓ).2
  | condElse hcond hthen helse =>
      obtain ⟨ht, hΓ₂⟩ := hthen.valid hresult (hcond.valid hresult hΓ).2
      exact ⟨ht, (helse.valid hresult hΓ₂).2⟩
  | binary hleft hright rule =>
      obtain ⟨ht, hΓ₁⟩ := hleft.valid hresult hΓ
      exact ⟨rule.isInvalid_eq_false ht, (hright.valid hresult hΓ₁).2⟩
  | unary hoperand => exact hoperand.valid hresult hΓ
  | bareReturn => exact ⟨rfl, hΓ⟩
  | valueReturn hvalue => exact hvalue.valid hresult hΓ
  | call known harguments => exact ⟨hresult _ _ known, harguments.valid hresult hΓ⟩
  | subscript hoperand hindex element =>
      obtain ⟨ht, hΓ₁⟩ := hoperand.valid hresult hΓ
      exact ⟨isInvalid_of_dereference ht element, (hindex.valid hresult hΓ₁).2⟩

theorem StatementsHaveType.valid
    (hresult : ∀ name g, callable name = some g → g.returnType.isInvalid = false)
    {Γ Γ' : Scopes Ty} {es : List Tree} {t : Ty}
    (h : StatementsHaveType callable declared Γ es t Γ') (hΓ : ValidScopes Γ) :
    t.isInvalid = false ∧ ValidScopes Γ' := by
  cases h with
  | empty => exact ⟨rfl, hΓ⟩
  | last hlast => exact hlast.valid hresult hΓ
  | cons hfirst hothers => exact hothers.valid hresult (hfirst.valid hresult hΓ).2

theorem ArgumentsHaveTypes.valid
    (hresult : ∀ name g, callable name = some g → g.returnType.isInvalid = false)
    {Γ Γ' : Scopes Ty} {es : List Tree} {ts : List Ty}
    (h : ArgumentsHaveTypes callable declared Γ es ts Γ') (hΓ : ValidScopes Γ) :
    ValidScopes Γ' := by
  cases h with
  | nil => exact hΓ
  | cons hfirst hothers => exact hothers.valid hresult (hfirst.valid hresult hΓ).2

end

end Judgement

/-! ### Runs without a complaint -/

/-- If a list grows to another and this to a third, and the third is the first again, then it never
grew. -/
lemma prefix_squeeze {α : Type} {as bs cs : List α} (h : as <+: bs) (h' : bs <+: cs)
    (hcs : cs = as) : bs = as ∧ cs = bs := by
  subst hcs
  have hlen := h'.length_le
  have := h.eq_of_length (Nat.le_antisymm h.length_le hlen)
  exact ⟨this.symm, this⟩

/-- Recording a complaint leaves the errors alone only if there is none. -/
lemma complained_errors_iff {c : Option Complaint} {s : Checker} :
    (s.complained c).log.errors = s.log.errors ↔ c = none := by
  cases c with
  | none => simp [Checker.complained]
  | some c =>
      obtain ⟨d, -, hd⟩ := c.exists_record s.log
      simp [Checker.complained, hd, Log.record]

/-- A run and perhaps a complaint, as part of a longer run without a complaint: there was none, and
the rest of the longer run is without one too. -/
lemma judge_quiet {e : Tree} {s s₁ s' : Checker} {t : Ty} {c : Option Complaint}
    (hrun : judge e s = .ok (t, s₁)) (hrest : (s₁.complained c).log.errors <+: s'.log.errors)
    (hquiet : s'.log.errors = s.log.errors) :
    c = none ∧ s₁.log.errors = s.log.errors ∧ s'.log.errors = s₁.log.errors := by
  have hcomplained := s₁.prefix_complained_errors c
  obtain ⟨h₁, h₂⟩ := prefix_squeeze ((judge_kept hrun).errors.trans hcomplained) hrest hquiet
  obtain ⟨h₃, h₄⟩ := prefix_squeeze (judge_kept hrun).errors hcomplained h₁
  exact ⟨complained_errors_iff.mp h₄, h₃, h₂.trans h₄⟩

/-- The checker is about to judge an expression under the given signatures and the given declared
return type, and no name has the type of a failure. -/
structure Ready (callable : String → Option Signature) (declared : Ty) (s : Checker) : Prop where
  signatures : ∀ name, s.signatures.find? name = callable name
  returnType : s.returnType = some declared
  scopes : ValidScopes s.scopes

namespace Ready

variable {callable : String → Option Signature} {declared : Ty} {s s' : Checker}

/-- The checker is ready again after a run that left valid scopes. -/
lemma after (h : Ready callable declared s) (hkept : Kept s s') (hscopes : ValidScopes s'.scopes) :
    Ready callable declared s' where
  signatures name := by rw [hkept.signatures, h.signatures]
  returnType := by rw [hkept.returnType, h.returnType]
  scopes := hscopes

lemma opened (h : Ready callable declared s) : Ready callable declared s.opened :=
  ⟨h.signatures, h.returnType, h.scopes.push⟩

lemma warned (h : Ready callable declared s) (b : Bool) (l : Location) :
    Ready callable declared (s.warned b l) := by
  cases b <;> exact ⟨h.signatures, h.returnType, h.scopes⟩

end Ready

lemma warned_errors (b : Bool) (l : Location) (s : Checker) :
    (s.warned b l).log.errors = s.log.errors := by
  cases b <;> rfl

lemma warned_scopes (b : Bool) (l : Location) (s : Checker) :
    (s.warned b l).scopes = s.scopes := by
  cases b <;> rfl

lemma warned_types (b : Bool) (l : Location) (s : Checker) : (s.warned b l).types = s.types := by
  cases b <;> rfl

section Soundness

variable {callable : String → Option Signature} {declared : Ty}

/-- Every run on `e` from a ready state that records no error is a derivation for `e`. -/
def SoundAt (callable : String → Option Signature) (declared : Ty) (e : Tree) : Prop :=
  ∀ s t s', Ready callable declared s → judge e s = .ok (t, s') →
    s'.log.errors = s.log.errors → HasType callable declared s.scopes e t s'.scopes

variable {id : NodeId} {l : Location}

/-! ### Forms without subexpressions -/

lemma SoundAt.var (name : String) : SoundAt callable declared (.node id l (.var name)) := by
  intro s t s' _ hrun hquiet
  cases hl : s.scopes.lookup name with
  | some u =>
      obtain ⟨rfl, rfl⟩ := (judge_bound_eq_ok hl).mp hrun
      exact .var hl
  | none =>
      obtain ⟨-, rfl⟩ := (judge_unbound_eq_ok hl).mp hrun
      cases complained_errors_iff.mp hquiet

lemma SoundAt.bareReturn : SoundAt callable declared (.node id l (.jump .returnWord none)) := by
  intro s t s' hs hrun hquiet
  obtain ⟨rfl, rfl⟩ := judge_bareReturn_eq_ok.mp hrun
  rw [hs.returnType] at hquiet ⊢
  have hvoid := (ofReturn_accepts_iff rfl).mp (complained_errors_iff.mp hquiet)
  exact .bareReturn hvoid.symm

/-- A jump out of a loop is always complained of. -/
lemma SoundAt.loopJump {operator : Token.Kind} (h : operator ≠ .returnWord)
    (value : Option Tree) : SoundAt callable declared (.node id l (.jump operator value)) := by
  intro s t s' _ hrun hquiet
  obtain ⟨-, rfl⟩ := (judge_loopJump_eq_ok h).mp hrun
  cases complained_errors_iff.mp hquiet

/-! ### Subexpressions in order -/

variable (hresult : ∀ name g, callable name = some g → g.returnType.isInvalid = false)

include hresult

/-- The state after a sound run without a complaint: the type is valid, and the checker is ready
again. -/
lemma SoundAt.ready {e : Tree} (h : SoundAt callable declared e) {s s' : Checker} {t : Ty}
    (hs : Ready callable declared s) (hrun : judge e s = .ok (t, s'))
    (hquiet : s'.log.errors = s.log.errors) :
    HasType callable declared s.scopes e t s'.scopes ∧ t.isInvalid = false ∧
      Ready callable declared s' := by
  have htype := h s t s' hs hrun hquiet
  obtain ⟨ht, hscopes⟩ := htype.valid hresult hs.scopes
  exact ⟨htype, ht, hs.after (judge_kept hrun) hscopes⟩

/-- A sound run and perhaps a complaint, as part of a longer run without a complaint: there was
none, and the rest of the longer run is without one too. -/
lemma SoundAt.step {e : Tree} (h : SoundAt callable declared e) {s s₁ s' : Checker} {t : Ty}
    {c : Option Complaint} (hs : Ready callable declared s) (hrun : judge e s = .ok (t, s₁))
    (hrest : (s₁.complained c).log.errors <+: s'.log.errors)
    (hquiet : s'.log.errors = s.log.errors) :
    c = none ∧ HasType callable declared s.scopes e t s₁.scopes ∧ t.isInvalid = false ∧
      Ready callable declared s₁ ∧ s'.log.errors = s₁.log.errors := by
  obtain ⟨hnone, h₁, h₂⟩ := judge_quiet hrun hrest hquiet
  obtain ⟨htype, ht, hs₁⟩ := h.ready hresult hs hrun h₁
  exact ⟨hnone, htype, ht, hs₁, h₂⟩

/-- Statements that are judged without a complaint have the type of the last of them. -/
lemma statementsHaveType_of_judge {e : Tree} {es : List Tree}
    (ih : ∀ x ∈ e :: es, SoundAt callable declared x) {b : Bool} {u t : Ty} {s s' : Checker}
    (hs : Ready callable declared s) (hrun : judgeStatements b u (e :: es) s = .ok (t, s'))
    (hquiet : s'.log.errors = s.log.errors) :
    StatementsHaveType callable declared s.scopes (e :: es) t s'.scopes := by
  induction es generalizing e b u s with
  | nil =>
      obtain ⟨v, s₁, he, hrest⟩ := judgeStatements_cons_eq_ok.mp hrun
      obtain ⟨rfl, rfl⟩ := judgeStatements_nil_eq_ok.mp hrest
      have htype := ih e (by simp) _ _ _ (hs.warned b e.location) he (by rw [warned_errors, hquiet])
      rw [warned_scopes] at htype
      exact .last htype
  | cons x xs ihes =>
      obtain ⟨v, s₁, he, hrest⟩ := judgeStatements_cons_eq_ok.mp hrun
      have hw := warned_errors b e.location s
      obtain ⟨h₁, h₂⟩ := prefix_squeeze (hw ▸ (judge_kept he).errors)
        (judgeStatements_kept hrest).errors hquiet
      obtain ⟨htype, -, hs₁⟩ := (ih e (by simp)).ready hresult (hs.warned b e.location) he
        (h₁.trans hw.symm)
      rw [warned_scopes] at htype
      exact .cons htype (ihes (fun y hy => ih y (List.mem_cons_of_mem _ hy)) hs₁ hrest h₂)

/-- Arguments that are judged without a complaint are accepted and have the types of the
parameters. -/
lemma argumentsHaveTypes_of_judge {callee : String} {es : List Tree}
    (ih : ∀ x ∈ es, SoundAt callable declared x) {ps : List Ty} {b : Bool} {s s' : Checker}
    (hcount : ps.length = es.length) (hs : Ready callable declared s)
    (hrun : judgeArguments callee ps es s = .ok (b, s')) (hquiet : s'.log.errors = s.log.errors) :
    b = true ∧ ArgumentsHaveTypes callable declared s.scopes es ps s'.scopes := by
  induction es generalizing ps s with
  | nil =>
      obtain rfl : ps = [] := List.eq_nil_of_length_eq_zero hcount
      obtain ⟨rfl, rfl⟩ := judgeArguments_nil_eq_ok.mp hrun
      exact ⟨rfl, .nil⟩
  | cons e es ihes =>
      cases ps with
      | nil => cases hcount
      | cons p ps =>
          obtain ⟨u, s₁, he, hrest⟩ := judgeArguments_cons_eq_ok.mp hrun
          have hkept : (s₁.complained (argumentComplaint callee p u e.location)).log.errors <+:
              s'.log.errors := by
            split at hrest
            · rw [hrest.2]
            · exact (judgeArguments_kept hrest).errors
          obtain ⟨hnone, htype, hu, hs₁, h₂⟩ := (ih e (by simp)).step hresult hs he hkept hquiet
          obtain rfl := (argumentComplaint_eq_none hu).mp hnone
          rw [hnone] at hrest
          rw [if_neg (by simp [hu])] at hrest
          obtain ⟨rfl, hargs⟩ := ihes (fun x hx => ih x (List.mem_cons_of_mem _ hx))
            (by simpa using hcount) hs₁ hrest h₂
          exact ⟨rfl, .cons htype hargs⟩

/-! ### Forms with subexpressions -/

lemma SoundAt.binding {value : Tree} (h : SoundAt callable declared value) (name : String)
    (stated : Option Ty) :
    SoundAt callable declared (.node id l (.binding name stated value)) := by
  intro s t s' hs hrun hquiet
  obtain ⟨u, s₁, hv, rfl, rfl⟩ := judge_binding_eq_ok.mp hrun
  obtain ⟨hstated, htype, ht, -, hrest⟩ :=
    h.step hresult hs hv (Checker.prefix_complained_errors _ _) hquiet
  rw [hstated] at hrest ⊢
  have hfresh : (s₁.scopes.localLookup name).isSome = false :=
    complainIf_eq_none.mp (complained_errors_iff.mp hrest)
  exact .binding htype ((annotationComplaint_eq_none ht).mp hstated)
    (Option.isNone_iff_eq_none.mp (Option.isSome_eq_false_iff.mp hfresh))

lemma SoundAt.block {statements : List Tree}
    (ih : ∀ x ∈ statements, SoundAt callable declared x) :
    SoundAt callable declared (.node id l (.block statements)) := by
  intro s t s' hs hrun hquiet
  obtain ⟨u, s₁, hb, rfl, rfl⟩ := judge_block_eq_ok.mp hrun
  have hrestored : s₁.scopes.tail = s.scopes := (judgeStatements_kept hb).outer
  have hinner : StatementsHaveType callable declared s.scopes.push statements t s₁.scopes := by
    cases statements with
    | nil =>
        obtain ⟨rfl, rfl⟩ := judgeStatements_nil_eq_ok.mp hb
        exact .empty
    | cons e es => exact statementsHaveType_of_judge hresult ih hs.opened hb hquiet
  have hblock : HasType callable declared s.scopes (.node id l (.block statements)) t s.scopes :=
    .block hinner
  exact hrestored.symm ▸ hblock

lemma SoundAt.cond {condition thenBlock : Tree} (hcondition : SoundAt callable declared condition)
    (hthen : SoundAt callable declared thenBlock) :
    SoundAt callable declared (.node id l (.cond condition thenBlock none)) := by
  intro s t s' hs hrun hquiet
  obtain ⟨c, s₁, hc, u, s₂, ht, rfl, rfl⟩ := judge_cond_eq_ok.mp hrun
  obtain ⟨hnone, hbool, hvalid, hs₁, hrest⟩ :=
    hcondition.step hresult hs hc (judge_kept ht).errors hquiet
  obtain rfl := (conditionComplaint_eq_none hvalid).mp hnone
  rw [hnone] at ht
  exact .cond hbool (hthen s₁ t s₂ hs₁ ht hrest)

lemma SoundAt.condElse {condition thenBlock elseBlock : Tree}
    (hcondition : SoundAt callable declared condition)
    (hthen : SoundAt callable declared thenBlock) (helse : SoundAt callable declared elseBlock) :
    SoundAt callable declared (.node id l (.cond condition thenBlock (some elseBlock))) := by
  intro s t s' hs hrun hquiet
  obtain ⟨c, s₁, hc, u, s₂, ht, e, s₃, he, rfl, rfl⟩ := judge_condElse_eq_ok.mp hrun
  have hgrown := (judge_kept he).errors.trans (s₃.prefix_complained_errors (armsComplaint t e l))
  obtain ⟨hnone, hbool, hvalid, hs₁, hrest⟩ :=
    hcondition.step hresult hs hc ((judge_kept ht).errors.trans hgrown) hquiet
  obtain rfl := (conditionComplaint_eq_none hvalid).mp hnone
  rw [hnone] at ht
  obtain ⟨-, htype, ht', hs₂, hrest⟩ := hthen.step (c := none) hresult hs₁ ht hgrown hrest
  obtain ⟨hnone, hetype, he', -, -⟩ := helse.step hresult hs₂ he List.prefix_rfl hrest
  obtain rfl := (armsComplaint_eq_none ht' he').mp hnone
  exact .condElse hbool htype hetype

lemma SoundAt.binary {left right : Tree} (hleft : SoundAt callable declared left)
    (hright : SoundAt callable declared right) (operator : Token.Kind) :
    SoundAt callable declared (.node id l (.binary operator left right)) := by
  intro s t s' hs hrun hquiet
  obtain ⟨a, s₁, ha, b, s₂, hb, rfl, rfl⟩ := judge_binary_eq_ok.mp hrun
  obtain ⟨-, hltype, ha', hs₁, hrest⟩ := hleft.step (c := none) hresult hs ha
    ((judge_kept hb).errors.trans (Checker.prefix_complained_errors _ _)) hquiet
  obtain ⟨hnone, hrtype, hb', -, -⟩ := hright.step hresult hs₁ hb List.prefix_rfl hrest
  obtain ⟨rfl, rule⟩ := (ofBinary_accepts_iff _ _ ha' hb').mp ⟨hnone, rfl⟩
  exact .binary hltype hrtype rule

lemma SoundAt.unary {operand : Tree} (h : SoundAt callable declared operand)
    (operator : Token.Kind) :
    SoundAt callable declared (.node id l (.unary operator operand)) := by
  intro s t s' hs hrun hquiet
  obtain ⟨a, s₁, ha, rfl, rfl⟩ := judge_unary_eq_ok.mp hrun
  obtain ⟨hnone, htype, ha', -, -⟩ := h.step hresult hs ha List.prefix_rfl hquiet
  obtain ⟨heq, rule⟩ := (ofUnary_accepts_iff ha').mp ⟨hnone, rfl⟩
  rw [heq]
  exact .unary htype rule

lemma SoundAt.valueReturn {value : Tree} (h : SoundAt callable declared value) :
    SoundAt callable declared (.node id l (.jump .returnWord (some value))) := by
  intro s t s' hs hrun hquiet
  obtain ⟨a, s₁, ha, rfl, rfl⟩ := judge_valueReturn_eq_ok.mp hrun
  obtain ⟨hnone, htype, ha', hs₁, -⟩ := h.step hresult hs ha List.prefix_rfl hquiet
  rw [hs₁.returnType] at hnone ⊢
  obtain rfl := (ofReturn_accepts_iff ha').mp hnone
  exact .valueReturn htype

lemma SoundAt.call {arguments : List Tree} (ih : ∀ x ∈ arguments, SoundAt callable declared x)
    (callee : String) : SoundAt callable declared (.node id l (.call callee arguments)) := by
  intro s t s' hs hrun hquiet
  cases hg : s.signatures.find? callee with
  | none =>
      obtain ⟨-, rfl⟩ := (judge_unknownCall_eq_ok hg).mp hrun
      cases complained_errors_iff.mp hquiet
  | some g =>
      by_cases hcount : g.parameters.length = arguments.length
      · obtain ⟨b, s₁, ha, rfl, rfl⟩ := (judge_call_eq_ok hg hcount).mp hrun
        obtain ⟨rfl, hargs⟩ := argumentsHaveTypes_of_judge hresult ih hcount hs ha hquiet
        exact .call ((hs.signatures callee).symm.trans hg) hargs
      · obtain ⟨-, rfl⟩ := (judge_miscountedCall_eq_ok hg hcount).mp hrun
        cases complained_errors_iff.mp hquiet

lemma SoundAt.subscript {operand index : Tree} (hoperand : SoundAt callable declared operand)
    (hindex : SoundAt callable declared index) :
    SoundAt callable declared (.node id l (.subscript operand index)) := by
  intro s t s' hs hrun hquiet
  obtain ⟨a, s₁, ha, b, s₂, hb, rfl, rfl⟩ := judge_subscript_eq_ok.mp hrun
  obtain ⟨-, hotype, ha', hs₁, hrest⟩ := hoperand.step (c := none) hresult hs ha
    ((judge_kept hb).errors.trans (Checker.prefix_complained_errors _ _)) hquiet
  obtain ⟨hnone, hitype, hb', -, -⟩ := hindex.step hresult hs₁ hb List.prefix_rfl hrest
  obtain ⟨rfl, element⟩ := (ofSubscript_accepts_iff _ _ ha' hb').mp ⟨hnone, rfl⟩
  exact .subscript hotype hitype element

/-! ### All expressions -/

/-- **Soundness**: a run from a ready state that records no error is a derivation of the type that
it gives. -/
theorem hasType_of_judge (e : Tree) : SoundAt callable declared e := by
  induction e using Tree.childInduction with
  | missing id =>
      intro s t s' _ hrun
      rw [judge_missing] at hrun
      cases hrun
  | node id l shape ih =>
      cases shape with
      | number =>
          intro s t s' _ hrun _
          obtain ⟨rfl, rfl⟩ := judge_number_eq_ok.mp hrun
          exact .number
      | boolean =>
          intro s t s' _ hrun _
          obtain ⟨rfl, rfl⟩ := judge_boolean_eq_ok.mp hrun
          exact .boolean
      | string =>
          intro s t s' _ hrun _
          obtain ⟨rfl, rfl⟩ := judge_string_eq_ok.mp hrun
          exact .string
      | char =>
          intro s t s' _ hrun _
          obtain ⟨rfl, rfl⟩ := judge_char_eq_ok.mp hrun
          exact .char
      | var name => exact .var name
      | binding name stated value =>
          exact (ih value (by simp [Shape.children])).binding hresult name stated
      | block statements => exact .block hresult ih
      | cond condition thenBlock elseBlock =>
          have hcondition := ih condition (by simp [Shape.children])
          have hthen := ih thenBlock (by simp [Shape.children])
          cases elseBlock with
          | none => exact hcondition.cond hresult hthen
          | some elseBlock =>
              exact hcondition.condElse hresult hthen (ih elseBlock (by simp [Shape.children]))
      | binary operator left right =>
          have hleft := ih left (by simp [Shape.children])
          exact hleft.binary hresult (ih right (by simp [Shape.children])) operator
      | unary operator operand =>
          exact (ih operand (by simp [Shape.children])).unary hresult operator
      | jump operator value =>
          by_cases hop : operator = .returnWord
          · subst hop
            cases value with
            | none => exact .bareReturn
            | some value => exact (ih value (by simp [Shape.children])).valueReturn hresult
          · exact .loopJump hop value
      | call callee arguments => exact .call hresult ih callee
      | subscript operand index =>
          have hoperand := ih operand (by simp [Shape.children])
          exact hoperand.subscript hresult (ih index (by simp [Shape.children]))

end Soundness

end Fern.Typing
