import Fern.Proofs.Parsing.Storage
import Fern.Proofs.Typing.Acceptance

/-!
The types that a run without a complaint enters in the table.

* `Checker.Clean`: neither a name nor a signature has the type of a failure.
* `Checker.Has`, `Covers`: an expression has got a type with a given property; some trees have got
  such types in all their parts, and what had one before has kept one.
* `Admits`: the property allows what an expression can get, the type of any value, or the declared
  type for a `return`.
* `CoveredAt`: every run on an expression from a clean state that records no error covers it;
  `CoveredAt.step` for a run that is part of a longer one, `CoveredAt.binding` and its companions
  for the forms.
* `coveredAt`: all parts of an expression get types with the property.
* `exists_bodyRun`: in a check of a program there is a run on each body, and what it enters in the
  table stays there.
-/

namespace Fern

namespace Typing

/-! ### The table of types -/

namespace Checker

/-- The expression `i` has got a type with the property `Q`. -/
def Has (Q : NodeId → Ty → Prop) (s : Checker) (i : NodeId) : Prop :=
  ∃ t, s.types[i]? = some t ∧ Q i t

/-- Neither a name in a scope nor a signature has the type of a failure. -/
structure Clean (s : Checker) : Prop where
  scopes : ValidScopes s.scopes
  signatures : ∀ g ∈ s.signatures, g.2.returnType.isInvalid = false ∧
    ∀ t ∈ g.2.parameters, t.isInvalid = false

variable {Q : NodeId → Ty → Prop} {s s' : Checker} {id i : NodeId} {t : Ty}

@[simp] lemma size_types_typed : (s.typed id t).types.size = s.types.size :=
  Array.size_setIfInBounds

lemma getElem?_types_typed (h : id < s.types.size) : (s.typed id t).types[id]? = some t := by
  simp [Checker.typed, h]

lemma getElem?_types_typed_ne (h : id ≠ i) : (s.typed id t).types[i]? = s.types[i]? :=
  Array.getElem?_setIfInBounds_ne h

/-- A type with the property takes no such type away. -/
lemma Has.typed (h : s.Has Q i) (ht : Q id t) : (s.typed id t).Has Q i := by
  obtain ⟨u, hu, hQ⟩ := h
  by_cases hid : id = i
  · subst hid
    exact ⟨t, getElem?_types_typed (Array.getElem?_eq_some_iff.mp hu).1, ht⟩
  · exact ⟨u, (getElem?_types_typed_ne hid).trans hu, hQ⟩

namespace Clean

lemma opened (h : s.Clean) : s.opened.Clean := ⟨h.scopes.push, h.signatures⟩

lemma warned (h : s.Clean) (b : Bool) (l : Location) : (s.warned b l).Clean := by
  cases b <;> exact ⟨h.scopes, h.signatures⟩

/-- The result of a function that can be called is a value. -/
lemma result (h : s.Clean) {name : String} {g : Signature}
    (hg : s.signatures.find? name = some g) : g.returnType.isInvalid = false :=
  (h.signatures (name, g) (mem_of_find? hg)).1

end Clean

end Checker

/-- The state `s'` comes after `s`, and in between all parts of the trees `ts` have got a type with
the property `Q`. -/
structure Covers (Q : NodeId → Ty → Prop) (ts : List Tree) (s s' : Checker) : Prop where
  scopes : ValidScopes s'.scopes
  size : s'.types.size = s.types.size
  kept : ∀ i, s.Has Q i → s'.Has Q i
  complete : ∀ e ∈ ts, e.Complete
  parts : ∀ e ∈ ts, ∀ u, e.Contains u → u.id < s.types.size → s'.Has Q u.id

namespace Covers

variable {Q : NodeId → Ty → Prop} {ts us : List Tree} {s s₁ s' : Checker} {t : Ty}

lemma nil (h : ValidScopes s.scopes) : Covers Q [] s s :=
  ⟨h, rfl, fun _ hi => hi, by simp, by simp⟩

lemma append (h : Covers Q ts s s₁) (h' : Covers Q us s₁ s') : Covers Q (ts ++ us) s s' where
  scopes := h'.scopes
  size := h'.size.trans h.size
  kept i hi := h'.kept i (h.kept i hi)
  complete e he := (List.mem_append.mp he).elim (h.complete e) (h'.complete e)
  parts e he u hu hid := by
    rcases List.mem_append.mp he with he | he
    · exact h'.kept _ (h.parts e he u hu hid)
    · exact h'.parts e he u hu (h.size ▸ hid)

/-- When the subexpressions are covered and the whole gets a type with the property, the whole is
covered. -/
lemma node (h : Covers Q ts s s₁) {id : NodeId} {l : Location} {shape : Shape Tree}
    (hQ : Q id t) (hts : shape.children = ts) :
    Covers Q [.node id l shape] s (s₁.typed id t) where
  scopes := h.scopes
  size := Checker.size_types_typed.trans h.size
  kept i hi := (h.kept i hi).typed hQ
  complete e he := by
    obtain rfl := List.mem_singleton.mp he
    exact Tree.complete_node fun c hc => h.complete c (hts ▸ hc)
  parts e he u hu hid := by
    obtain rfl := List.mem_singleton.mp he
    cases hu with
    | self => exact ⟨t, Checker.getElem?_types_typed (h.size ▸ hid), hQ⟩
    | child hc hu => exact (h.parts _ (hts ▸ hc) u hu hid).typed hQ

lemma bound (h : Covers Q ts s s₁) (ht : t.isInvalid = false) (name : String) :
    Covers Q ts s (s₁.bound name t) :=
  ⟨h.scopes.bind ht, h.size, h.kept, h.complete, h.parts⟩

/-- A scope that is opened before and closed afterwards makes no difference. -/
lemma closed (h : Covers Q ts s.opened s₁) : Covers Q ts s s₁.closed :=
  ⟨fun bs hbs => h.scopes bs (List.mem_of_mem_tail hbs), h.size, h.kept, h.complete, h.parts⟩

lemma of_warned {b : Bool} {l : Location} (h : Covers Q ts (s.warned b l) s₁) :
    Covers Q ts s s₁ := by
  cases b with
  | false => exact h
  | true => exact ⟨h.scopes, h.size, h.kept, h.complete, h.parts⟩

/-- The state after a run that covers something is clean again. -/
lemma clean (h : Covers Q ts s s') (hkept : Kept s s') (hs : s.Clean) : s'.Clean :=
  ⟨h.scopes, hkept.signatures ▸ hs.signatures⟩

end Covers

/-! ### Runs without a complaint -/

section Forms

variable {Q : NodeId → Ty → Prop} {declared : Option Ty}

/-- An expression may have got the type of any value, but a `return` only the declared type. -/
def Admits (Q : NodeId → Ty → Prop) (declared : Option Ty) (e : Tree) : Prop :=
  ∀ t, t.isInvalid = false → (e.isReturn = true → declared = some t) → Q e.id t

/-- Every run on `e` from a clean state that records no error gives the type of a value and covers
`e`. -/
def CoveredAt (Q : NodeId → Ty → Prop) (declared : Option Ty) (e : Tree) : Prop :=
  ∀ s t s', s.Clean → s.returnType = declared → judge e s = .ok (t, s') →
    s'.log.errors = s.log.errors → t.isInvalid = false ∧ Covers Q [e] s s'

variable {id : NodeId} {l : Location} {s s₁ s' : Checker} {t : Ty}

/-- A covered expression and perhaps a complaint, as part of a longer run without a complaint. -/
lemma CoveredAt.step {e : Tree} (h : CoveredAt Q declared e) {c : Option Complaint} (hs : s.Clean)
    (hd : s.returnType = declared) (hrun : judge e s = .ok (t, s₁))
    (hrest : (s₁.complained c).log.errors <+: s'.log.errors)
    (hquiet : s'.log.errors = s.log.errors) :
    c = none ∧ t.isInvalid = false ∧ Covers Q [e] s s₁ ∧
      (s₁.Clean ∧ s₁.returnType = declared) ∧ s'.log.errors = s₁.log.errors := by
  obtain ⟨hnone, h₁, h₂⟩ := judge_quiet hrun hrest hquiet
  obtain ⟨ht, hcovers⟩ := h s t s₁ hs hd hrun h₁
  have hkept := judge_kept hrun
  exact ⟨hnone, ht, hcovers, ⟨hcovers.clean hkept hs, hkept.returnType.trans hd⟩, h₂⟩

/-- An expression other than a `return` that gets the type of a value is covered if its
subexpressions are. -/
lemma Covers.typed {ts : List Tree} {shape : Shape Tree} (h : Covers Q ts s s₁)
    (ht : t.isInvalid = false) (hadmits : Admits Q declared (.node id l shape))
    (hshape : (Tree.node id l shape).isReturn = false) (hts : shape.children = ts) :
    t.isInvalid = false ∧ Covers Q [.node id l shape] s (s₁.typed id t) :=
  ⟨ht, h.node (hadmits t ht fun hreturn => absurd hreturn (by simp [hshape])) hts⟩

/-- The same for an expression that is settled without a complaint. -/
lemma Covers.settled {ts : List Tree} {shape : Shape Tree} {v : Verdict} (h : Covers Q ts s s₁)
    (hnone : v.complaint = none) (ht : v.type.isInvalid = false)
    (hadmits : Admits Q declared (.node id l shape))
    (hshape : (Tree.node id l shape).isReturn = false) (hts : shape.children = ts) :
    v.type.isInvalid = false ∧ Covers Q [.node id l shape] s (s₁.settled id v) := by
  rw [Checker.settled, hnone]
  exact h.typed ht hadmits hshape hts

lemma CoveredAt.var {name : String} (hadmits : Admits Q declared (.node id l (.var name))) :
    CoveredAt Q declared (.node id l (.var name)) := by
  intro s t s' hs hd hrun hquiet
  cases hl : s.scopes.lookup name with
  | some u =>
      obtain ⟨rfl, rfl⟩ := (judge_bound_eq_ok hl).mp hrun
      exact (Covers.nil hs.scopes).typed (hs.scopes.lookup hl) hadmits rfl rfl
  | none =>
      obtain ⟨-, rfl⟩ := (judge_unbound_eq_ok hl).mp hrun
      cases complained_errors_iff.mp hquiet

lemma CoveredAt.binding {name : String} {stated : Option Ty} {value : Tree}
    (hadmits : Admits Q declared (.node id l (.binding name stated value)))
    (h : CoveredAt Q declared value) :
    CoveredAt Q declared (.node id l (.binding name stated value)) := by
  intro s t s' hs hd hrun hquiet
  obtain ⟨u, s₁, hv, rfl, rfl⟩ := judge_binding_eq_ok.mp hrun
  obtain ⟨hstated, ht, hcovers, -, hrest⟩ :=
    h.step hs hd hv (Checker.prefix_complained_errors _ _) hquiet
  rw [hstated] at hrest ⊢
  have hfresh : s₁.duplicate name l = none := complained_errors_iff.mp hrest
  have hdeclared : s₁.declaring name t l = s₁.bound name t := by
    rw [Checker.declaring, hfresh]
    rfl
  exact hdeclared ▸ (hcovers.bound ht name).typed ht hadmits rfl rfl

/-- Statements that are judged without a complaint are covered. -/
lemma covers_of_judgeStatements {es : List Tree} (ih : ∀ x ∈ es, CoveredAt Q declared x)
    {b : Bool} {u : Ty} (hs : s.Clean) (hd : s.returnType = declared) (hu : u.isInvalid = false)
    (hrun : judgeStatements b u es s = .ok (t, s')) (hquiet : s'.log.errors = s.log.errors) :
    t.isInvalid = false ∧ Covers Q es s s' := by
  induction es generalizing b u s with
  | nil =>
      obtain ⟨rfl, rfl⟩ := judgeStatements_nil_eq_ok.mp hrun
      exact ⟨hu, .nil hs.scopes⟩
  | cons e es ihes =>
      obtain ⟨v, s₁, he, hrest⟩ := judgeStatements_cons_eq_ok.mp hrun
      rw [← warned_errors b e.location s] at hquiet
      have hd' : (s.warned b e.location).returnType = declared := by
        cases b <;> exact hd
      obtain ⟨-, hv, hcovers, ⟨hs₁, hd₁⟩, hquiet₁⟩ := (ih e (by simp)).step (c := none)
        (hs.warned b e.location) hd' he (judgeStatements_kept hrest).errors hquiet
      obtain ⟨ht, hothers⟩ := ihes (fun x hx => ih x (by simp [hx])) hs₁ hd₁ hv hrest hquiet₁
      exact ⟨ht, hcovers.of_warned.append hothers⟩

/-- Arguments that are judged without a complaint are accepted and covered. -/
lemma covers_of_judgeArguments {callee : String} {es : List Tree}
    (ih : ∀ x ∈ es, CoveredAt Q declared x) {ps : List Ty} {b : Bool}
    (hcount : ps.length = es.length) (hs : s.Clean) (hd : s.returnType = declared)
    (hrun : judgeArguments callee ps es s = .ok (b, s')) (hquiet : s'.log.errors = s.log.errors) :
    b = true ∧ Covers Q es s s' := by
  induction es generalizing ps s with
  | nil =>
      obtain rfl : ps = [] := List.eq_nil_of_length_eq_zero hcount
      obtain ⟨rfl, rfl⟩ := judgeArguments_nil_eq_ok.mp hrun
      exact ⟨rfl, .nil hs.scopes⟩
  | cons e es ihes =>
      cases ps with
      | nil => cases hcount
      | cons p ps =>
          obtain ⟨u, s₁, he, hrest⟩ := judgeArguments_cons_eq_ok.mp hrun
          have hkept : (s₁.complained (argumentComplaint callee p u e.location)).log.errors <+:
              s'.log.errors := by
            split at hrest
            · rw [hrest.2]
            · exact (judgeArguments_kept hrest).errors
          obtain ⟨hnone, hu, hcovers, ⟨hs₁, hd₁⟩, hquiet₁⟩ :=
            (ih e (by simp)).step hs hd he hkept hquiet
          obtain rfl := (argumentComplaint_eq_none hu).mp hnone
          rw [hnone] at hrest
          rw [if_neg (by simp [hu])] at hrest
          obtain ⟨rfl, hothers⟩ := ihes (fun x hx => ih x (by simp [hx])) (by simpa using hcount)
            hs₁ hd₁ hrest hquiet₁
          exact ⟨rfl, hcovers.append hothers⟩

lemma CoveredAt.block {statements : List Tree}
    (hadmits : Admits Q declared (.node id l (.block statements)))
    (ih : ∀ x ∈ statements, CoveredAt Q declared x) :
    CoveredAt Q declared (.node id l (.block statements)) := by
  intro s t s' hs hd hrun hquiet
  obtain ⟨u, s₁, hb, rfl, rfl⟩ := judge_block_eq_ok.mp hrun
  obtain ⟨ht, hcovers⟩ := covers_of_judgeStatements ih hs.opened hd rfl hb hquiet
  exact hcovers.closed.typed ht hadmits rfl rfl

lemma CoveredAt.cond {condition thenBlock : Tree}
    (hadmits : Admits Q declared (.node id l (.cond condition thenBlock none)))
    (hcondition : CoveredAt Q declared condition) (hthen : CoveredAt Q declared thenBlock) :
    CoveredAt Q declared (.node id l (.cond condition thenBlock none)) := by
  intro s t s' hs hd hrun hquiet
  obtain ⟨c, s₁, hc, u, s₂, ht, rfl, rfl⟩ := judge_cond_eq_ok.mp hrun
  obtain ⟨hnone, -, hcovers, ⟨hs₁, hd₁⟩, hrest⟩ :=
    hcondition.step hs hd hc (judge_kept ht).errors hquiet
  rw [hnone] at ht
  obtain ⟨hvalid, hcovers'⟩ := hthen s₁ t s₂ hs₁ hd₁ ht hrest
  exact (hcovers.append hcovers').typed hvalid hadmits rfl rfl

lemma CoveredAt.condElse {condition thenBlock elseBlock : Tree}
    (hadmits : Admits Q declared (.node id l (.cond condition thenBlock (some elseBlock))))
    (hcondition : CoveredAt Q declared condition) (hthen : CoveredAt Q declared thenBlock)
    (helse : CoveredAt Q declared elseBlock) :
    CoveredAt Q declared (.node id l (.cond condition thenBlock (some elseBlock))) := by
  intro s t s' hs hd hrun hquiet
  obtain ⟨c, s₁, hc, u, s₂, ht, e, s₃, he, rfl, rfl⟩ := judge_condElse_eq_ok.mp hrun
  have hgrown := (judge_kept he).errors.trans (s₃.prefix_complained_errors (armsComplaint t e l))
  obtain ⟨hnone, -, hcovers, ⟨hs₁, hd₁⟩, hrest⟩ :=
    hcondition.step hs hd hc ((judge_kept ht).errors.trans hgrown) hquiet
  rw [hnone] at ht
  obtain ⟨-, hvalid, hcovers₁, ⟨hs₂, hd₂⟩, hrest⟩ :=
    hthen.step (c := none) hs₁ hd₁ ht hgrown hrest
  obtain ⟨hnone, -, hcovers₂, -, -⟩ := helse.step hs₂ hd₂ he List.prefix_rfl hrest
  rw [hnone]
  exact (hcovers.append (hcovers₁.append hcovers₂)).typed hvalid hadmits rfl rfl

lemma CoveredAt.binary {operator : Token.Kind} {left right : Tree}
    (hadmits : Admits Q declared (.node id l (.binary operator left right)))
    (hleft : CoveredAt Q declared left) (hright : CoveredAt Q declared right) :
    CoveredAt Q declared (.node id l (.binary operator left right)) := by
  intro s t s' hs hd hrun hquiet
  obtain ⟨a, s₁, ha, b, s₂, hb, rfl, rfl⟩ := judge_binary_eq_ok.mp hrun
  obtain ⟨-, ha', hcovers, ⟨hs₁, hd₁⟩, hrest⟩ := hleft.step (c := none) hs hd ha
    ((judge_kept hb).errors.trans (Checker.prefix_complained_errors _ _)) hquiet
  obtain ⟨hnone, hb', hcovers', -, -⟩ := hright.step hs₁ hd₁ hb List.prefix_rfl hrest
  obtain ⟨-, rule⟩ := (ofBinary_accepts_iff _ _ ha' hb').mp ⟨hnone, rfl⟩
  have ht := rule.isInvalid_eq_false ha'
  exact (hcovers.append hcovers').settled hnone ht hadmits rfl rfl

lemma CoveredAt.unary {operator : Token.Kind} {operand : Tree}
    (hadmits : Admits Q declared (.node id l (.unary operator operand)))
    (h : CoveredAt Q declared operand) :
    CoveredAt Q declared (.node id l (.unary operator operand)) := by
  intro s t s' hs hd hrun hquiet
  obtain ⟨a, s₁, ha, rfl, rfl⟩ := judge_unary_eq_ok.mp hrun
  obtain ⟨hnone, ha', hcovers, -, -⟩ := h.step hs hd ha List.prefix_rfl hquiet
  obtain ⟨heq, -⟩ := (ofUnary_accepts_iff ha').mp ⟨hnone, rfl⟩
  have ht := (congrArg Ty.isInvalid heq).trans ha'
  exact hcovers.settled hnone ht hadmits rfl rfl

/-- A `return` without a complaint has the declared type, which is that of its value. -/
lemma CoveredAt.settled_return {value : Option Tree} {ts : List Tree}
    (hadmits : Admits Q declared (.node id l (.jump .returnWord value)))
    (hcovers : Covers Q ts s s₁) (ht : t.isInvalid = false)
    (hnone : (ofReturn declared t l).complaint = none) (hts : value.toList = ts) :
    (ofReturn declared t l).type.isInvalid = false ∧
      Covers Q [.node id l (.jump .returnWord value)] s
        (s₁.settled id (ofReturn declared t l)) := by
  cases declared with
  | none => cases hnone
  | some d =>
      have hsame := (ofReturn_accepts_iff ht).mp hnone
      rw [Checker.settled, hnone]
      exact ⟨ht, hcovers.node (hadmits t ht fun _ => congrArg some hsame.symm) hts⟩

lemma CoveredAt.bareReturn (hadmits : Admits Q declared (.node id l (.jump .returnWord none))) :
    CoveredAt Q declared (.node id l (.jump .returnWord none)) := by
  intro s t s' hs hd hrun hquiet
  obtain ⟨rfl, rfl⟩ := judge_bareReturn_eq_ok.mp hrun
  rw [hd] at hquiet ⊢
  exact settled_return hadmits (.nil hs.scopes) rfl (complained_errors_iff.mp hquiet) rfl

lemma CoveredAt.valueReturn {value : Tree}
    (hadmits : Admits Q declared (.node id l (.jump .returnWord (some value))))
    (h : CoveredAt Q declared value) :
    CoveredAt Q declared (.node id l (.jump .returnWord (some value))) := by
  intro s t s' hs hd hrun hquiet
  obtain ⟨a, s₁, ha, rfl, rfl⟩ := judge_valueReturn_eq_ok.mp hrun
  obtain ⟨hnone, ha', hcovers, ⟨-, hd₁⟩, -⟩ := h.step hs hd ha List.prefix_rfl hquiet
  rw [hd₁] at hnone ⊢
  exact settled_return hadmits hcovers ha' hnone rfl

/-- A jump out of a loop is always complained of. -/
lemma CoveredAt.loopJump {operator : Token.Kind} (h : operator ≠ .returnWord)
    (value : Option Tree) : CoveredAt Q declared (.node id l (.jump operator value)) := by
  intro s t s' _ _ hrun hquiet
  obtain ⟨-, rfl⟩ := (judge_loopJump_eq_ok h).mp hrun
  cases complained_errors_iff.mp hquiet

lemma CoveredAt.call {callee : String} {arguments : List Tree}
    (hadmits : Admits Q declared (.node id l (.call callee arguments)))
    (ih : ∀ x ∈ arguments, CoveredAt Q declared x) :
    CoveredAt Q declared (.node id l (.call callee arguments)) := by
  intro s t s' hs hd hrun hquiet
  cases hg : s.signatures.find? callee with
  | none =>
      obtain ⟨-, rfl⟩ := (judge_unknownCall_eq_ok hg).mp hrun
      cases complained_errors_iff.mp hquiet
  | some g =>
      by_cases hcount : g.parameters.length = arguments.length
      · obtain ⟨b, s₁, ha, rfl, rfl⟩ := (judge_call_eq_ok hg hcount).mp hrun
        obtain ⟨rfl, hcovers⟩ := covers_of_judgeArguments ih hcount hs hd ha hquiet
        exact hcovers.typed (hs.result hg) hadmits rfl rfl
      · obtain ⟨-, rfl⟩ := (judge_miscountedCall_eq_ok hg hcount).mp hrun
        cases complained_errors_iff.mp hquiet

lemma CoveredAt.subscript {operand index : Tree}
    (hadmits : Admits Q declared (.node id l (.subscript operand index)))
    (hoperand : CoveredAt Q declared operand) (hindex : CoveredAt Q declared index) :
    CoveredAt Q declared (.node id l (.subscript operand index)) := by
  intro s t s' hs hd hrun hquiet
  obtain ⟨a, s₁, ha, b, s₂, hb, rfl, rfl⟩ := judge_subscript_eq_ok.mp hrun
  obtain ⟨-, ha', hcovers, ⟨hs₁, hd₁⟩, hrest⟩ := hoperand.step (c := none) hs hd ha
    ((judge_kept hb).errors.trans (Checker.prefix_complained_errors _ _)) hquiet
  obtain ⟨hnone, hb', hcovers', -, -⟩ := hindex.step hs₁ hd₁ hb List.prefix_rfl hrest
  obtain ⟨-, element⟩ := (ofSubscript_accepts_iff _ _ ha' hb').mp ⟨hnone, rfl⟩
  have ht := isInvalid_of_dereference ha' element
  exact (hcovers.append hcovers').settled hnone ht hadmits rfl rfl

/-- Every run from a clean state that records no error gives all parts types with the property, if
it allows the types that they can get. -/
lemma coveredAt (e : Tree) (h : ∀ u, e.Contains u → Admits Q declared u) :
    CoveredAt Q declared e := by
  induction e using Tree.childInduction with
  | missing id =>
      intro s t s' _ _ hrun
      rw [judge_missing] at hrun
      cases hrun
  | node id l shape ih =>
      have hadmits := h _ (.self _)
      replace ih : ∀ c ∈ shape.children, CoveredAt Q declared c :=
        fun c hc => ih c hc fun u hu => h u (.child hc hu)
      cases shape with
      | number value isFloat =>
          intro s t s' hs _ hrun _
          obtain ⟨rfl, rfl⟩ := judge_number_eq_ok.mp hrun
          have ht : (if isFloat then Ty.float else Ty.int).isInvalid = false := by
            cases isFloat <;> rfl
          exact (Covers.nil hs.scopes).typed ht hadmits rfl rfl
      | boolean =>
          intro s t s' hs _ hrun _
          obtain ⟨rfl, rfl⟩ := judge_boolean_eq_ok.mp hrun
          exact (Covers.nil hs.scopes).typed rfl hadmits rfl rfl
      | string =>
          intro s t s' hs _ hrun _
          obtain ⟨rfl, rfl⟩ := judge_string_eq_ok.mp hrun
          exact (Covers.nil hs.scopes).typed rfl hadmits rfl rfl
      | char =>
          intro s t s' hs _ hrun _
          obtain ⟨rfl, rfl⟩ := judge_char_eq_ok.mp hrun
          exact (Covers.nil hs.scopes).typed rfl hadmits rfl rfl
      | var => exact .var hadmits
      | binding name stated value => exact .binding hadmits (ih value (by simp [Shape.children]))
      | block => exact .block hadmits ih
      | cond condition thenBlock elseBlock =>
          have hcondition := ih condition (by simp [Shape.children])
          have hthen := ih thenBlock (by simp [Shape.children])
          cases elseBlock with
          | none => exact .cond hadmits hcondition hthen
          | some elseBlock =>
              exact .condElse hadmits hcondition hthen (ih elseBlock (by simp [Shape.children]))
      | binary operator left right =>
          have hleft := ih left (by simp [Shape.children])
          exact .binary hadmits hleft (ih right (by simp [Shape.children]))
      | unary operator operand => exact .unary hadmits (ih operand (by simp [Shape.children]))
      | jump operator value =>
          by_cases hop : operator = .returnWord
          · subst hop
            cases value with
            | none => exact .bareReturn hadmits
            | some value => exact .valueReturn hadmits (ih value (by simp [Shape.children]))
          · exact .loopJump hop value
      | call => exact .call hadmits ih
      | subscript operand index =>
          have hoperand := ih operand (by simp [Shape.children])
          exact .subscript hadmits hoperand (ih index (by simp [Shape.children]))

end Forms

/-- The types of values may be got by every expression. -/
lemma admits_valid (declared : Option Ty) (e : Tree) :
    Admits (fun _ t => t.isInvalid = false) declared e :=
  fun _ ht _ => ht

/-! ### Entries that a run does not touch -/

/-- The table keeps its size. -/
lemma judge_types_size {e : Tree} {s s' : Checker} {t : Ty} (h : judge e s = .ok (t, s')) :
    s'.types.size = s.types.size := by
  have hstep : Stepwise Any Any fun s s' => s'.types.size = s.types.size :=
    { refl := fun _ => rfl
      trans := fun h h' => h'.trans h
      typed := fun _ _ _ => Checker.size_types_typed
      complained := fun _ _ => rfl
      bound := fun _ _ _ => rfl
      warned := fun _ b _ => by cases b <;> rfl
      block := fun h => h }
  exact judge_stepwise hstep e (fun _ _ => ⟨trivial, trivial⟩) s t s' h

/-- A run on an expression enters types of its parts only. -/
lemma judge_types_of_notMem {e : Tree} {s s' : Checker} {t : Ty} {i : NodeId}
    (h : judge e s = .ok (t, s')) (hi : ∀ u, e.Contains u → u.id ≠ i) :
    s'.types[i]? = s.types[i]? := by
  have hstep : Stepwise (· ≠ i) Any fun s s' => s'.types[i]? = s.types[i]? :=
    { refl := fun _ => rfl
      trans := fun h h' => h'.trans h
      typed := fun hid _ _ => Checker.getElem?_types_typed_ne hid
      complained := fun _ _ => rfl
      bound := fun _ _ _ => rfl
      warned := fun _ b _ => by cases b <;> rfl
      block := fun h => h }
  exact judge_stepwise hstep e (fun u hu => ⟨hi u hu, trivial⟩) s t s' h

lemma checkFunctions_types_size {fs : List (Prototype × Tree)} {s s' : Checker}
    (h : checkFunctions fs s = .ok ((), s')) : s'.types.size = s.types.size := by
  induction fs generalizing s with
  | nil =>
      obtain ⟨-, rfl⟩ := pure_eq_ok.mp h
      rfl
  | cons f fs ih =>
      obtain ⟨_, s₁, hf, hrest⟩ := bind_eq_ok.mp h
      obtain ⟨t, s₂, hbody, rfl⟩ := checkFunction_eq_ok.mp hf
      have hsize : s₂.types.size = (s.entered f.1).types.size := judge_types_size hbody
      exact (ih hrest).trans hsize

lemma checkFunctions_types_of_notMem {fs : List (Prototype × Tree)} {s s' : Checker} {i : NodeId}
    (h : checkFunctions fs s = .ok ((), s')) (hi : ∀ f ∈ fs, ∀ u, f.2.Contains u → u.id ≠ i) :
    s'.types[i]? = s.types[i]? := by
  induction fs generalizing s with
  | nil =>
      obtain ⟨-, rfl⟩ := pure_eq_ok.mp h
      rfl
  | cons f fs ih =>
      obtain ⟨_, s₁, hf, hrest⟩ := bind_eq_ok.mp h
      obtain ⟨t, s₂, hbody, rfl⟩ := checkFunction_eq_ok.mp hf
      have hentry : s₂.types[i]? = (s.entered f.1).types[i]? :=
        judge_types_of_notMem hbody (hi f (by simp))
      exact (ih hrest fun g hg => hi g (by simp [hg])).trans hentry

/-! ### Functions -/

section Functions

variable {Q : NodeId → Ty → Prop} {p : Prototype} {s s' : Checker}

/-- The registration of a prototype with valid types leaves a clean state. -/
lemma Checker.Clean.registered (h : s.Clean) (hp : ValidPrototype p) : (s.registered p).Clean := by
  refine ⟨h.scopes, fun g hg => ?_⟩
  rcases mem_set hg with rfl | hg
  · refine ⟨hp.1, fun t ht => ?_⟩
    obtain ⟨a, ha, rfl⟩ := List.mem_map.mp ht
    exact hp.2 a ha
  · exact h.signatures g hg

lemma Checker.Clean.entered (h : s.Clean) (hp : ValidPrototype p) : (s.entered p).Clean := by
  refine ⟨fun bs hbs => ?_, (h.registered hp).signatures⟩
  rcases List.mem_cons.mp hbs with rfl | hbs
  · exact parameterScope_valid hp.2 _ (List.mem_singleton_self _)
  · exact h.scopes bs hbs

lemma Checker.Clean.exited (h : s.Clean) : s.exited.Clean :=
  ⟨fun bs hbs => h.scopes bs (List.mem_of_mem_tail hbs), h.signatures⟩

lemma Checker.Clean.declarations {ds : List Prototype} (h : s.Clean)
    (hds : ∀ q ∈ ds, ValidPrototype q) : (ds.foldl Checker.registered s).Clean := by
  induction ds generalizing s with
  | nil => exact h
  | cons d ds ih =>
      exact ih (h.registered (hds d (by simp))) (fun q hq => hds q (by simp [hq]))

/-- Declarations have no part in the table of types. -/
lemma types_declarations (ds : List Prototype) :
    (ds.foldl Checker.registered s).types = s.types := by
  induction ds generalizing s with
  | nil => rfl
  | cons d ds ih => exact ih

/-- A function that is checked without an error leaves a clean state. -/
lemma Checker.Clean.checkFunction {body : Tree} (hs : s.Clean) (hp : ValidPrototype p)
    (hrun : checkFunction p body s = .ok ((), s')) (hquiet : s'.log.errors = s.log.errors) :
    s'.Clean := by
  obtain ⟨t, s₁, hbody, rfl⟩ := checkFunction_eq_ok.mp hrun
  obtain ⟨-, hquiet'⟩ := prefix_squeeze (s.prefix_complained_errors _) (judge_kept hbody).errors
    hquiet
  have hcovered := coveredAt body fun _ _ => admits_valid (some p.returnType) _
  exact ((hcovered _ t s₁ (hs.entered hp) rfl hbody hquiet').2.clean (judge_kept hbody)
    (hs.entered hp)).exited

/-- Functions that are checked without an error leave a clean state. -/
lemma Checker.Clean.checkFunctions {fs : List (Prototype × Tree)} (hs : s.Clean)
    (hfs : ∀ f ∈ fs, ValidPrototype f.1) (hrun : checkFunctions fs s = .ok ((), s'))
    (hquiet : s'.log.errors = s.log.errors) : s'.Clean := by
  induction fs generalizing s with
  | nil =>
      obtain ⟨-, rfl⟩ := pure_eq_ok.mp hrun
      exact hs
  | cons f fs ih =>
      obtain ⟨_, s₁, hf, hrest⟩ := bind_eq_ok.mp hrun
      obtain ⟨h₁, h₂⟩ := prefix_squeeze (prefix_checkFunction_errors hf)
        (prefix_checkFunctions_errors hrest) hquiet
      exact ih (hs.checkFunction (hfs f (by simp)) hf h₁) (fun g hg => hfs g (by simp [hg]))
        hrest h₂

/-- Functions are checked one after the other. -/
lemma checkFunctions_append_eq_ok {fs gs : List (Prototype × Tree)} :
    checkFunctions (fs ++ gs) s = .ok ((), s') ↔
      ∃ s₁, checkFunctions fs s = .ok ((), s₁) ∧ checkFunctions gs s₁ = .ok ((), s') := by
  induction fs generalizing s with
  | nil =>
      refine ⟨fun h => ⟨s, pure_eq_ok.mpr ⟨rfl, rfl⟩, h⟩, ?_⟩
      rintro ⟨s₁, hnil, h⟩
      obtain ⟨-, rfl⟩ := pure_eq_ok.mp hnil
      exact h
  | cons f fs ih =>
      constructor
      · intro h
        obtain ⟨_, s₁, hf, hrest⟩ := bind_eq_ok.mp h
        obtain ⟨s₂, hfs, hgs⟩ := ih.mp hrest
        exact ⟨s₂, bind_eq_ok.mpr ⟨_, s₁, hf, hfs⟩, hgs⟩
      · rintro ⟨s₂, hfs, hgs⟩
        obtain ⟨_, s₁, hf, hfs'⟩ := bind_eq_ok.mp hfs
        exact bind_eq_ok.mpr ⟨_, s₁, hf, ih.mpr ⟨s₂, hfs', hgs⟩⟩

end Functions

end Typing

open Typing

/-- The run on the body of `f`, from `s` to `s'` with the type `t`, in a check of `p` without an
error that ends with the table `types`. -/
structure BodyRun (p : Program) (f : Function) (types : Array Ty) (s : Checker) (t : Ty)
    (s' : Checker) : Prop where
  clean : s.Clean
  returnType : s.returnType = some f.prototype.returnType
  size : s.types.size = p.arena.size
  run : judge (p.body f) s = .ok (t, s')
  quiet : s'.log.errors = s.log.errors
  kept : ∀ u, (p.body f).Contains u → types[u.id]? = s'.types[u.id]?

/-- Where no name is stated to be of the type of a failure, the heads of functions state types of
values. -/
lemma Program.StatedTypesValid.prototype {p : Program} (h : p.StatedTypesValid) {f : Function}
    (hf : f ∈ p.functions) : ValidPrototype f.prototype :=
  h _ (List.mem_append_right _ (List.mem_map_of_mem hf))

lemma Program.StatedTypesValid.bodies {p : Program} (h : p.StatedTypesValid) :
    ∀ f ∈ p.bodies, ValidPrototype f.1 := by
  intro f hf
  obtain ⟨g, hg, rfl⟩ := List.mem_map.mp hf
  exact h.prototype hg

/-- After the declarations the state is clean. -/
lemma Program.StatedTypesValid.clean {p : Program} (h : p.StatedTypesValid) (log : Log) :
    (p.declarations.foldl Checker.registered (.start p.arena.size log)).Clean := by
  have hstart : (Checker.start p.arena.size log).Clean := ⟨by rintro _ ⟨⟩, by rintro _ ⟨⟩⟩
  exact hstart.declarations fun q hq => h q (List.mem_append_left _ hq)

/-- In a check without an error of a program the bodies of which share no expression, there is a run
on each body, and what it enters in the table stays there. -/
lemma exists_bodyRun {p : Program} (hvalid : p.StatedTypesValid)
    (hlaid : Tree.Laid 0 (p.functions.map p.body) p.arena.size) {log out : Log} {types : Array Ty}
    (hrun : typeCheck p log = .ok (types, out)) (hquiet : out.errors = log.errors) {f : Function}
    (hf : f ∈ p.functions) : ∃ s t s', BodyRun p f types s t s' := by
  obtain ⟨s', hprogram, rfl, rfl⟩ := typeCheck_eq_ok.mp hrun
  obtain ⟨_, s₀, hds, hfs⟩ := bind_eq_ok.mp hprogram
  obtain rfl := checkDeclarations_eq_ok.mp hds
  have hsize : (p.declarations.foldl Checker.registered
      (.start p.arena.size log)).types.size = p.arena.size := by
    rw [types_declarations]
    exact Array.size_replicate
  have hprototype : ∀ g ∈ p.functions, ValidPrototype g.prototype := fun g => hvalid.prototype
  obtain ⟨-, hquiet'⟩ := prefix_squeeze (prefix_declarations_errors _ _)
    (prefix_checkFunctions_errors hfs) hquiet
  obtain ⟨earlier, later, hsplit⟩ := List.append_of_mem hf
  rw [hsplit] at hfs hlaid hprototype
  rw [List.map_append, List.map_cons] at hfs
  obtain ⟨s₁, hearlier, hrest⟩ := checkFunctions_append_eq_ok.mp hfs
  obtain ⟨_, s₂, hchecked, hlater⟩ := bind_eq_ok.mp hrest
  obtain ⟨h₁, h₂⟩ := prefix_squeeze (prefix_checkFunctions_errors hearlier)
    (prefix_checkFunctions_errors hrest) hquiet'
  obtain ⟨h₃, -⟩ := prefix_squeeze (prefix_checkFunction_errors hchecked)
    (prefix_checkFunctions_errors hlater) h₂
  have hclean : s₁.Clean := by
    refine (hvalid.clean log).checkFunctions (fun g hg => ?_) hearlier h₁
    obtain ⟨g', hg', rfl⟩ := List.mem_map.mp hg
    exact hprototype g' (List.mem_append_left _ hg')
  obtain ⟨t, s₃, hbody, rfl⟩ := checkFunction_eq_ok.mp hchecked
  obtain ⟨-, h₄⟩ := prefix_squeeze (s₁.prefix_complained_errors _) (judge_kept hbody).errors h₃
  refine ⟨s₁.entered f.prototype, t, s₃, ⟨?_, rfl, ?_, hbody, h₄, ?_⟩⟩
  · exact hclean.entered (hprototype f (by simp))
  · exact (checkFunctions_types_size hearlier).trans hsize
  · intro u hu
    refine (checkFunctions_types_of_notMem hlater fun g hg v hv => ?_ :
      s'.types[u.id]? = s₃.exited.types[u.id]?)
    obtain ⟨g', hg', rfl⟩ := List.mem_map.mp hg
    rw [List.map_append, List.map_cons, List.append_cons] at hlaid
    exact (hlaid.notMem (by simp) (List.mem_map_of_mem hg') hu hv).symm

end Fern
