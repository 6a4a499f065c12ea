import Fern.Proofs.Typing.Hooks
import Fern.Proofs.Typing.Visits

/-!
The calls that the checker makes, one for each expression that it judges.

* `Call`: a call on an expression, with the states before and after it, the type that it gives and
  the calls that are made in it.
* `recorder`: the hooks that record each call where it ends, with the calls made in it.
* `Course`: what a call does on each form of expression: the calls in it, the type and the state
  that it leaves.
* `Call.Sound`: a call has run as it is recorded, and so have the calls in it.
* `exists_call`: **each run is recorded as a call**.
-/

namespace Fern

/-- Whether the form is that of a literal. -/
def Shape.isLiteral {ε : Type} : Shape ε → Bool
  | .boolean _ | .number _ _ | .string _ | .char _ => true
  | _ => false

namespace Typing

/-- A call of the checker on an expression: the state before it, the type that it gives, the state
after it, and the calls that are made in it, in order. -/
structure Call where
  expression : Tree
  before : Checker
  type : Ty
  after : Checker
  inner : List Call

/-- Computations of the checker that record calls. -/
abbrev Recording := StateT (List Call) Check

/-- Records each call after those before it. The calls that it makes itself are put into it. -/
def recorder : Hooks Recording where
  around e x calls s := do
    let ((t, inner), s') ← x [] s
    return ((t, calls ++ [⟨e, s, t, s', inner⟩]), s')
  before b l := warnUnreachable b l

/-- What holds of a call whenever it holds of the calls made in it holds of all. -/
@[elab_as_elim]
theorem Call.innerInduction {P : Call → Prop} (h : ∀ c, (∀ d ∈ c.inner, P d) → P c) (c : Call) :
    P c :=
  @Call.rec P (fun cs => ∀ d ∈ cs, P d) (fun e s t s' inner ih => h ⟨e, s, t, s', inner⟩ ih)
    (by simp) (fun d ds hd hds => List.forall_mem_cons.mpr ⟨hd, hds⟩) c

/-! ### What a call does -/

/-- The calls on the statements of a block, the type of the last one and the state after it. -/
inductive StatementCourse : Bool → Ty → List Tree → Checker → List Call → Ty → Checker → Prop
  | nil {b t s} : StatementCourse b t [] s [] t s
  | cons {b u es s t s'} {c : Call} {cs : List Call}
      (hc : c.before = s.warned b c.expression.location)
      (others : StatementCourse c.expression.isReturn c.type es c.after cs t s') :
      StatementCourse b u (c.expression :: es) s (c :: cs) t s'

/-- The calls on the arguments of a function, whether they are accepted, and the state after them.
-/
inductive ArgumentCourse (callee : String) :
    List Ty → List Tree → Checker → List Call → Bool → Checker → Prop
  | nil {s} : ArgumentCourse callee [] [] s [] true s
  | refused {p ps es s} {c : Call} (hc : c.before = s) (h : c.type.isInvalid ∨ c.type ≠ p) :
      ArgumentCourse callee (p :: ps) (c.expression :: es) s [c] false
        (c.after.complained (argumentComplaint callee p c.type c.expression.location))
  | accepted {ps es s b s'} {c : Call} {cs : List Call} (hc : c.before = s)
      (hvalid : c.type.isInvalid = false) (others : ArgumentCourse callee ps es c.after cs b s') :
      ArgumentCourse callee (c.type :: ps) (c.expression :: es) s (c :: cs) b s'

/-- What a call does: the calls on the subexpressions, in order and each in the state that the one
before it leaves, the type, and the state afterwards. -/
inductive Course : Tree → Checker → List Call → Ty → Checker → Prop
  | literal {id l shape s t} (hshape : shape.isLiteral) :
      Course (.node id l shape) s [] t (s.typed id t)
  | bound {id l name s t} (h : s.scopes.lookup name = some t) :
      Course (.node id l (.var name)) s [] t (s.typed id t)
  | unbound {id l name s} (h : s.scopes.lookup name = none) :
      Course (.node id l (.var name)) s [] .invalid
        (s.settled id (.refuse (.unknownVariable name) l none))
  | binding {id l name stated s} {c : Call} (hc : c.before = s) :
      Course (.node id l (.binding name stated c.expression)) s [c] c.type
        (((c.after.complained (annotationComplaint name stated c.type l)).declaring name c.type
          l).typed id c.type)
  | block {id l statements s cs t s'}
      (h : StatementCourse false .void statements s.opened cs t s') :
      Course (.node id l (.block statements)) s cs t (s'.closed.typed id t)
  | cond {id l s} {c b : Call} (hc : c.before = s)
      (hb : b.before = c.after.complained (conditionComplaint c.type c.expression.location)) :
      Course (.node id l (.cond c.expression b.expression none)) s [c, b] b.type
        (b.after.typed id b.type)
  | condElse {id l s} {c b e : Call} (hc : c.before = s)
      (hb : b.before = c.after.complained (conditionComplaint c.type c.expression.location))
      (he : e.before = b.after) :
      Course (.node id l (.cond c.expression b.expression (some e.expression))) s [c, b, e] b.type
        ((e.after.complained (armsComplaint b.type e.type l)).typed id b.type)
  | binary {id l operator s} {a b : Call} (ha : a.before = s) (hb : b.before = a.after) :
      Course (.node id l (.binary operator a.expression b.expression)) s [a, b]
        (ofBinary operator (a.expression.name?.getD "?") a.type b.type l).type
        (b.after.settled id (ofBinary operator (a.expression.name?.getD "?") a.type b.type l))
  | unary {id l operator s} {c : Call} (hc : c.before = s) :
      Course (.node id l (.unary operator c.expression)) s [c] (ofUnary operator c.type l).type
        (c.after.settled id (ofUnary operator c.type l))
  | bareReturn {id l s} :
      Course (.node id l (.jump .returnWord none)) s [] (ofReturn s.returnType .void l).type
        (s.settled id (ofReturn s.returnType .void l))
  | valueReturn {id l s} {c : Call} (hc : c.before = s) :
      Course (.node id l (.jump .returnWord (some c.expression))) s [c]
        (ofReturn c.after.returnType c.type l).type
        (c.after.settled id (ofReturn c.after.returnType c.type l))
  | loopJump {id l operator value s} (h : operator ≠ .returnWord) :
      Course (.node id l (.jump operator value)) s [] .void
        (s.settled id ⟨.void, some ⟨.loopControlOutsideLoop, l, none⟩⟩)
  | unknownCall {id l callee arguments s} (hg : s.signatures.find? callee = none) :
      Course (.node id l (.call callee arguments)) s [] .invalid
        (s.settled id (.refuse (.unknownFunction callee) l none))
  | miscountedCall {id l callee arguments s g} (hg : s.signatures.find? callee = some g)
      (hcount : g.parameters.length ≠ arguments.length) :
      Course (.node id l (.call callee arguments)) s [] .invalid
        (s.settled id
          (.refuse (.argumentCountMismatch g.parameters.length arguments.length) l none))
  | call {id l callee arguments s g cs b s'} (hg : s.signatures.find? callee = some g)
      (hcount : g.parameters.length = arguments.length)
      (h : ArgumentCourse callee g.parameters arguments s cs b s') :
      Course (.node id l (.call callee arguments)) s cs (if b then g.returnType else .invalid)
        (s'.typed id (if b then g.returnType else .invalid))
  | subscript {id l s} {a b : Call} (ha : a.before = s) (hb : b.before = a.after) :
      Course (.node id l (.subscript a.expression b.expression)) s [a, b]
        (ofSubscript a.type b.type l b.expression.location).type
        (b.after.settled id (ofSubscript a.type b.type l b.expression.location))

/-- A call has run as it is recorded, and so have the calls made in it. -/
inductive Call.Sound : Call → Prop
  | intro {c : Call} (run : judge c.expression c.before = .ok (c.type, c.after))
      (course : Course c.expression c.before c.inner c.type c.after)
      (inner : ∀ d ∈ c.inner, Sound d) : Sound c

/-! ### Runs of the recorder -/

section Recording

variable {α β : Type} {calls inner : List Call} {s s' : Checker} {e : Tree} {t : Ty}

/-- What the checker does on its own records no call. -/
lemma lift_of_ok {x : Check α} {a : α} (h : x s = .ok (a, s')) :
    (liftM x : Recording α) calls s = .ok ((a, calls), s') := by
  show (x >>= fun a => pure (a, calls)) s = _
  simp only [bind, StateT.bind, Except.bind, h]
  rfl

lemma bind_of_ok {y : Recording α} {f : α → Recording β} {a : α}
    (h : y calls s = .ok ((a, inner), s')) :
    (y >>= f) calls s = f a inner s' := by
  show ((y calls) >>= fun p => f p.1 p.2) s = _
  simp only [bind, StateT.bind, Except.bind, h]

lemma around_of_ok {x : Recording Ty} (h : x [] s = .ok ((t, inner), s')) :
    recorder.around e x calls s = .ok ((t, calls ++ [⟨e, s, t, s', inner⟩]), s') := by
  simp only [recorder, bind, Except.bind, h]
  rfl

lemma complain_of_ok {c : Option Complaint} :
    (liftM (complain c) : Recording Unit) calls s = .ok (((), calls), s.complained c) :=
  lift_of_ok (complain_eq_ok.mpr rfl)

lemma assign_of_ok {id : NodeId} :
    (liftM (assign id t) : Recording Ty) calls s = .ok ((t, calls), s.typed id t) :=
  lift_of_ok (assign_eq_ok.mpr ⟨rfl, rfl⟩)

lemma settle_of_ok {id : NodeId} {v : Verdict} :
    (liftM (settle id v) : Recording Ty) calls s = .ok ((v.type, calls), s.settled id v) :=
  lift_of_ok (settle_eq_ok.mpr ⟨rfl, rfl⟩)

end Recording

/-! ### Every run is recorded -/

/-- Each run on `e` is recorded as a call. -/
def RecordedAt (e : Tree) : Prop :=
  ∀ s t s', judge e s = .ok (t, s') → ∃ inner, Call.Sound ⟨e, s, t, s', inner⟩ ∧
    ∀ calls, judgeWith recorder e calls s = .ok ((t, calls ++ [⟨e, s, t, s', inner⟩]), s')

section Forms

variable {id : NodeId} {l : Location} {s s' : Checker} {t : Ty}

/-- A run without subexpressions. -/
lemma exists_leaf {e : Tree} (hrun : judge e s = .ok (t, s')) (hcourse : Course e s [] t s')
    {x : Recording Ty} (hx : x [] s = .ok ((t, []), s')) :
    ∃ inner, Call.Sound ⟨e, s, t, s', inner⟩ ∧
      ∀ calls, recorder.around e x calls s = .ok ((t, calls ++ [⟨e, s, t, s', inner⟩]), s') :=
  ⟨[], ⟨hrun, hcourse, by simp⟩, fun _ => around_of_ok hx⟩

lemma RecordedAt.var (name : String) : RecordedAt (.node id l (.var name)) := by
  intro s t s' hrun
  simp only [judgeWith]
  have hlookup : lookupName name s = .ok (s.scopes.lookup name, s) :=
    lookupName_eq_ok.mpr ⟨rfl, rfl⟩
  cases h : s.scopes.lookup name with
  | some u =>
      obtain ⟨rfl, rfl⟩ := (judge_bound_eq_ok h).mp hrun
      refine exists_leaf hrun (.bound h) ?_
      rw [bind_of_ok (lift_of_ok hlookup), h]
      exact assign_of_ok
  | none =>
      obtain ⟨rfl, rfl⟩ := (judge_unbound_eq_ok h).mp hrun
      refine exists_leaf hrun (.unbound h) ?_
      rw [bind_of_ok (lift_of_ok hlookup), h]
      exact settle_of_ok

lemma RecordedAt.binding {name : String} {stated : Option Ty} {value : Tree}
    (h : RecordedAt value) : RecordedAt (.node id l (.binding name stated value)) := by
  intro s t s' hrun
  simp only [judgeWith]
  obtain ⟨u, s₁, hv, rfl, rfl⟩ := judge_binding_eq_ok.mp hrun
  obtain ⟨inner, hsound, hrecorded⟩ := h s t s₁ hv
  let c : Call := ⟨value, s, t, s₁, inner⟩
  refine ⟨[c], ⟨hrun, .binding (c := c) rfl, by simpa using hsound⟩, fun _ => around_of_ok ?_⟩
  rw [bind_of_ok (hrecorded []), bind_of_ok complain_of_ok,
    bind_of_ok (lift_of_ok (a := ()) (declare_eq_ok.mpr rfl))]
  exact assign_of_ok

/-- Statements are recorded one after the other. -/
lemma exists_statementCourse {es : List Tree} (h : ∀ e ∈ es, RecordedAt e) {b : Bool} {u : Ty}
    (hrun : judgeStatements b u es s = .ok (t, s')) :
    ∃ cs, StatementCourse b u es s cs t s' ∧ (∀ c ∈ cs, c.Sound) ∧
      ∀ calls, judgeStatementsWith recorder b u es calls s = .ok ((t, calls ++ cs), s') := by
  induction es generalizing b u s with
  | nil =>
      obtain ⟨rfl, rfl⟩ := judgeStatements_nil_eq_ok.mp hrun
      refine ⟨[], .nil, by simp, fun calls => ?_⟩
      rw [judgeStatementsWith, List.append_nil]
      rfl
  | cons e es ih =>
      obtain ⟨v, s₁, he, hes⟩ := judgeStatements_cons_eq_ok.mp hrun
      obtain ⟨inner, hsound, hrecorded⟩ := h e List.mem_cons_self _ v s₁ he
      obtain ⟨cs, hcourse, hsounds, hrecordeds⟩ :=
        ih (fun c hc => h c (List.mem_cons_of_mem _ hc)) hes
      let c : Call := ⟨e, s.warned b e.location, v, s₁, inner⟩
      refine ⟨c :: cs, .cons (c := c) rfl hcourse, List.forall_mem_cons.mpr ⟨hsound, hsounds⟩,
        fun calls => ?_⟩
      have hwarn : (recorder.before b e.location) calls s
          = .ok (((), calls), s.warned b e.location) :=
        lift_of_ok (warnUnreachable_eq_ok.mpr rfl)
      rw [judgeStatementsWith, bind_of_ok hwarn, bind_of_ok (hrecorded calls), hrecordeds,
        List.append_assoc]
      rfl

/-- Arguments are recorded up to the first that is refused. -/
lemma exists_argumentCourse {callee : String} {es : List Tree} (h : ∀ e ∈ es, RecordedAt e)
    {ps : List Ty} {b : Bool} (hcount : ps.length = es.length)
    (hrun : judgeArguments callee ps es s = .ok (b, s')) :
    ∃ cs, ArgumentCourse callee ps es s cs b s' ∧ (∀ c ∈ cs, c.Sound) ∧
      ∀ calls, judgeArgumentsWith recorder callee ps es calls s = .ok ((b, calls ++ cs), s') := by
  induction es generalizing ps s with
  | nil =>
      obtain rfl : ps = [] := List.eq_nil_of_length_eq_zero hcount
      obtain ⟨rfl, rfl⟩ := judgeArguments_nil_eq_ok.mp hrun
      refine ⟨[], .nil, by simp, fun calls => ?_⟩
      rw [List.append_nil]
      rfl
  | cons e es ih =>
      cases ps with
      | nil => cases hcount
      | cons p ps =>
          obtain ⟨u, s₁, he, hes⟩ := judgeArguments_cons_eq_ok.mp hrun
          obtain ⟨inner, hsound, hrecorded⟩ := h e List.mem_cons_self _ u s₁ he
          let c : Call := ⟨e, s, u, s₁, inner⟩
          split at hes
          · next hstop =>
            obtain ⟨rfl, rfl⟩ := hes
            have hrefused : u.isInvalid = true ∨ u ≠ p := by simpa using hstop
            refine ⟨[c], .refused (c := c) rfl hrefused, by simpa using hsound, fun calls => ?_⟩
            rw [judgeArgumentsWith, bind_of_ok (hrecorded calls), bind_of_ok complain_of_ok,
              if_pos hstop]
            rfl
          · next hpass =>
            obtain ⟨hvalid, rfl⟩ : u.isInvalid = false ∧ u = p := by simpa using hpass
            rw [(argumentComplaint_eq_none hvalid).mpr rfl] at hes
            obtain ⟨cs, hcourse, hsounds, hrecordeds⟩ :=
              ih (fun c hc => h c (List.mem_cons_of_mem _ hc)) (by simpa using hcount) hes
            refine ⟨c :: cs, .accepted (c := c) rfl hvalid hcourse,
              List.forall_mem_cons.mpr ⟨hsound, hsounds⟩, fun calls => ?_⟩
            rw [judgeArgumentsWith, bind_of_ok (hrecorded calls), bind_of_ok complain_of_ok,
              if_neg hpass, (argumentComplaint_eq_none hvalid).mpr rfl]
            refine (hrecordeds _).trans ?_
            rw [List.append_assoc]
            rfl

lemma RecordedAt.block {statements : List Tree} (h : ∀ e ∈ statements, RecordedAt e) :
    RecordedAt (.node id l (.block statements)) := by
  intro s t s' hrun
  simp only [judgeWith]
  obtain ⟨u, s₁, hb, rfl, rfl⟩ := judge_block_eq_ok.mp hrun
  obtain ⟨cs, hcourse, hsound, hrecorded⟩ := exists_statementCourse h hb
  refine ⟨cs, ⟨hrun, .block hcourse, hsound⟩, fun _ => around_of_ok ?_⟩
  rw [bind_of_ok (lift_of_ok (a := ()) (pushScope_eq_ok.mpr rfl)), bind_of_ok (hrecorded []),
    bind_of_ok (lift_of_ok (a := ()) (popScope_eq_ok.mpr rfl))]
  exact assign_of_ok

lemma RecordedAt.cond {condition thenBlock : Tree} (hcondition : RecordedAt condition)
    (hthen : RecordedAt thenBlock) : RecordedAt (.node id l (.cond condition thenBlock none)) := by
  intro s t s' hrun
  simp only [judgeWith]
  obtain ⟨u, s₁, hc, v, s₂, ht, rfl, rfl⟩ := judge_cond_eq_ok.mp hrun
  obtain ⟨ics, hsc, hrc⟩ := hcondition s u s₁ hc
  obtain ⟨its, hst, hrt⟩ := hthen _ t s₂ ht
  let c : Call := ⟨condition, s, u, s₁, ics⟩
  let b : Call := ⟨thenBlock, s₁.complained (conditionComplaint u condition.location), t, s₂, its⟩
  refine ⟨[c, b], ⟨hrun, .cond (c := c) (b := b) rfl rfl, by simpa using ⟨hsc, hst⟩⟩,
    fun _ => around_of_ok ?_⟩
  rw [bind_of_ok (hrc []), bind_of_ok complain_of_ok, bind_of_ok (hrt _)]
  exact assign_of_ok

lemma RecordedAt.condElse {condition thenBlock elseBlock : Tree} (hcondition : RecordedAt condition)
    (hthen : RecordedAt thenBlock) (helse : RecordedAt elseBlock) :
    RecordedAt (.node id l (.cond condition thenBlock (some elseBlock))) := by
  intro s t s' hrun
  simp only [judgeWith]
  obtain ⟨u, s₁, hc, v, s₂, ht, w, s₃, he, rfl, rfl⟩ := judge_condElse_eq_ok.mp hrun
  obtain ⟨ics, hsc, hrc⟩ := hcondition s u s₁ hc
  obtain ⟨its, hst, hrt⟩ := hthen _ t s₂ ht
  obtain ⟨ies, hse, hre⟩ := helse _ w s₃ he
  let c : Call := ⟨condition, s, u, s₁, ics⟩
  let b : Call := ⟨thenBlock, s₁.complained (conditionComplaint u condition.location), t, s₂, its⟩
  let e : Call := ⟨elseBlock, s₂, w, s₃, ies⟩
  refine ⟨[c, b, e], ⟨hrun, .condElse (c := c) (b := b) (e := e) rfl rfl rfl,
    by simpa using ⟨hsc, hst, hse⟩⟩, fun _ => around_of_ok ?_⟩
  rw [bind_of_ok (hrc []), bind_of_ok complain_of_ok, bind_of_ok (hrt _), bind_of_ok (hre _),
    bind_of_ok complain_of_ok]
  exact assign_of_ok

lemma RecordedAt.binary {operator : Token.Kind} {left right : Tree} (hleft : RecordedAt left)
    (hright : RecordedAt right) : RecordedAt (.node id l (.binary operator left right)) := by
  intro s t s' hrun
  simp only [judgeWith]
  obtain ⟨u, s₁, ha, v, s₂, hb, rfl, rfl⟩ := judge_binary_eq_ok.mp hrun
  obtain ⟨ias, hsa, hra⟩ := hleft s u s₁ ha
  obtain ⟨ibs, hsb, hrb⟩ := hright _ v s₂ hb
  let a : Call := ⟨left, s, u, s₁, ias⟩
  let b : Call := ⟨right, s₁, v, s₂, ibs⟩
  refine ⟨[a, b], ⟨hrun, .binary (a := a) (b := b) rfl rfl, by simpa using ⟨hsa, hsb⟩⟩,
    fun _ => around_of_ok ?_⟩
  rw [bind_of_ok (hra []), bind_of_ok (hrb _)]
  exact settle_of_ok

lemma RecordedAt.unary {operator : Token.Kind} {operand : Tree} (h : RecordedAt operand) :
    RecordedAt (.node id l (.unary operator operand)) := by
  intro s t s' hrun
  simp only [judgeWith]
  obtain ⟨u, s₁, hc, rfl, rfl⟩ := judge_unary_eq_ok.mp hrun
  obtain ⟨inner, hsound, hrecorded⟩ := h s u s₁ hc
  let c : Call := ⟨operand, s, u, s₁, inner⟩
  refine ⟨[c], ⟨hrun, .unary (c := c) rfl, by simpa using hsound⟩, fun _ => around_of_ok ?_⟩
  rw [bind_of_ok (hrecorded [])]
  exact settle_of_ok

lemma RecordedAt.bareReturn : RecordedAt (.node id l (.jump .returnWord none)) := by
  intro s t s' hrun
  simp only [judgeWith]
  obtain ⟨rfl, rfl⟩ := judge_bareReturn_eq_ok.mp hrun
  refine exists_leaf hrun .bareReturn ?_
  rw [bind_of_ok (lift_of_ok (declaredReturn_eq_ok.mpr ⟨rfl, rfl⟩))]
  exact settle_of_ok

lemma RecordedAt.valueReturn {value : Tree} (h : RecordedAt value) :
    RecordedAt (.node id l (.jump .returnWord (some value))) := by
  intro s t s' hrun
  simp only [judgeWith]
  obtain ⟨u, s₁, hc, rfl, rfl⟩ := judge_valueReturn_eq_ok.mp hrun
  obtain ⟨inner, hsound, hrecorded⟩ := h s u s₁ hc
  let c : Call := ⟨value, s, u, s₁, inner⟩
  refine ⟨[c], ⟨hrun, .valueReturn (c := c) rfl, by simpa using hsound⟩, fun _ => around_of_ok ?_⟩
  rw [bind_of_ok (hrecorded []), bind_of_ok (lift_of_ok (declaredReturn_eq_ok.mpr ⟨rfl, rfl⟩))]
  exact settle_of_ok

lemma RecordedAt.loopJump {operator : Token.Kind} (h : operator ≠ .returnWord)
    (value : Option Tree) : RecordedAt (.node id l (.jump operator value)) := by
  intro s t s' hrun
  obtain ⟨rfl, rfl⟩ := (judge_loopJump_eq_ok h).mp hrun
  rw [judgeWith]
  · exact exists_leaf hrun (.loopJump h) settle_of_ok
  all_goals simp_all

lemma RecordedAt.call {callee : String} {arguments : List Tree}
    (h : ∀ e ∈ arguments, RecordedAt e) : RecordedAt (.node id l (.call callee arguments)) := by
  intro s t s' hrun
  simp only [judgeWith]
  have hlookup : lookupSignature callee s = .ok (s.signatures.find? callee, s) :=
    lookupSignature_eq_ok.mpr ⟨rfl, rfl⟩
  cases hg : s.signatures.find? callee with
  | none =>
      obtain ⟨rfl, rfl⟩ := (judge_unknownCall_eq_ok hg).mp hrun
      refine exists_leaf hrun (.unknownCall hg) ?_
      rw [bind_of_ok (lift_of_ok hlookup), hg]
      exact settle_of_ok
  | some g =>
      by_cases hcount : g.parameters.length = arguments.length
      · obtain ⟨b, s₁, ha, rfl, rfl⟩ := (judge_call_eq_ok hg hcount).mp hrun
        obtain ⟨cs, hcourse, hsound, hrecorded⟩ := exists_argumentCourse h hcount ha
        refine ⟨cs, ⟨hrun, .call hg hcount hcourse, hsound⟩, fun _ => around_of_ok ?_⟩
        rw [bind_of_ok (lift_of_ok hlookup), hg]
        simp only [if_neg (not_not_intro hcount)]
        rw [bind_of_ok (hrecorded [])]
        exact assign_of_ok
      · obtain ⟨rfl, rfl⟩ := (judge_miscountedCall_eq_ok hg hcount).mp hrun
        refine exists_leaf hrun (.miscountedCall hg hcount) ?_
        rw [bind_of_ok (lift_of_ok hlookup), hg]
        simp only [if_pos hcount]
        exact settle_of_ok

lemma RecordedAt.subscript {operand index : Tree} (hoperand : RecordedAt operand)
    (hindex : RecordedAt index) : RecordedAt (.node id l (.subscript operand index)) := by
  intro s t s' hrun
  simp only [judgeWith]
  obtain ⟨u, s₁, ha, v, s₂, hb, rfl, rfl⟩ := judge_subscript_eq_ok.mp hrun
  obtain ⟨ias, hsa, hra⟩ := hoperand s u s₁ ha
  obtain ⟨ibs, hsb, hrb⟩ := hindex _ v s₂ hb
  let a : Call := ⟨operand, s, u, s₁, ias⟩
  let b : Call := ⟨index, s₁, v, s₂, ibs⟩
  refine ⟨[a, b], ⟨hrun, .subscript (a := a) (b := b) rfl rfl, by simpa using ⟨hsa, hsb⟩⟩,
    fun _ => around_of_ok ?_⟩
  rw [bind_of_ok (hra []), bind_of_ok (hrb _)]
  exact settle_of_ok

/-- A literal gives its type, whatever the state. -/
lemma RecordedAt.literal {shape : Shape Tree} {u : Ty} (hshape : shape.isLiteral)
    (h : judge (.node id l shape) = assign id u)
    (hwith : judgeWith recorder (.node id l shape)
      = recorder.around (.node id l shape) (liftM (assign id u))) :
    RecordedAt (.node id l shape) := by
  intro s t s' hrun
  obtain ⟨rfl, rfl⟩ := assign_eq_ok.mp (h ▸ hrun)
  rw [hwith]
  exact exists_leaf hrun (.literal hshape) assign_of_ok

end Forms

/-- **Recorded calls.** Each run of the checker is recorded as a call, in which the calls on
subexpressions are those that the course of the run makes, and what is recorded makes no
difference to the run. -/
theorem exists_call (e : Tree) : RecordedAt e := by
  induction e using Tree.childInduction with
  | missing id =>
      intro s t s' hrun
      rw [judge_missing] at hrun
      cases hrun
  | node id l shape ih =>
      cases shape with
      | number value isFloat =>
          exact .literal rfl (by rw [judge]) (by rw [judgeWith])
      | boolean => exact .literal rfl (by rw [judge]) (by rw [judgeWith])
      | string => exact .literal rfl (by rw [judge]) (by rw [judgeWith])
      | char => exact .literal rfl (by rw [judge]) (by rw [judgeWith])
      | var name => exact .var name
      | binding name stated value => exact .binding (ih value (by simp [Shape.children]))
      | block => exact .block ih
      | cond condition thenBlock elseBlock =>
          have hcondition := ih condition (by simp [Shape.children])
          have hthen := ih thenBlock (by simp [Shape.children])
          cases elseBlock with
          | none => exact .cond hcondition hthen
          | some elseBlock =>
              exact .condElse hcondition hthen (ih elseBlock (by simp [Shape.children]))
      | binary operator left right =>
          have hleft := ih left (by simp [Shape.children])
          exact .binary hleft (ih right (by simp [Shape.children]))
      | unary operator operand => exact .unary (ih operand (by simp [Shape.children]))
      | jump operator value =>
          by_cases hop : operator = .returnWord
          · subst hop
            cases value with
            | none => exact .bareReturn
            | some value => exact .valueReturn (ih value (by simp [Shape.children]))
          · exact .loopJump hop value
      | call => exact .call ih
      | subscript operand index =>
          have hoperand := ih operand (by simp [Shape.children])
          exact .subscript hoperand (ih index (by simp [Shape.children]))

end Typing

end Fern
