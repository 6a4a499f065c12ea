import Fern.Proofs.Parsing.Layout
import Fern.Proofs.Program.Filling
import Fern.Proofs.Program.Parts
import Fern.Proofs.Typing.Calls
import Fern.Proofs.Typing.Stages
import Fern.Proofs.Typing.Table

/-!
Which expressions of a program the checker comes to, and how often.

* `Call.all`, `Call.skipped`: a call and all calls made in it, and the subexpressions that it leaves
  out.
* `Call.Sound.perm_parts`: the calls made in a call and what they leave out make up the parts of the
  expression.
* `Checker.Since`: if nothing was complained of since a given log, the state is clean.
* `Applies`: the calls that a call of a function makes on the arguments.
* `Call.Regular`: what a call does with the subexpressions.
* `recordCheck`: a check of a program with the calls that it makes.
* `Itinerary`: what can be relied on of these calls.
* `recordCheck_of_parse`: **every expression is judged once, unless a failed call leaves it out**.
-/

namespace Fern

open scoped List

namespace Typing

/-! ### All calls -/

namespace Call

mutual

/-- The call and all calls made in it, in the order in which they begin. -/
def all : Call → List Call
  | ⟨e, s, t, s', inner⟩ => ⟨e, s, t, s', inner⟩ :: allOf inner

/-- Some calls and all calls made in them. -/
def allOf : List Call → List Call
  | [] => []
  | c :: cs => all c ++ allOf cs

end

/-- The subexpressions that a call makes no call on. -/
def skipped (c : Call) : List Tree := c.expression.children.drop c.inner.length

lemma allOf_eq (cs : List Call) : allOf cs = cs.flatMap all := by
  induction cs with
  | nil => rfl
  | cons c cs ih => rw [allOf, ih, List.flatMap_cons]

lemma all_eq (c : Call) : c.all = c :: c.inner.flatMap all := by
  obtain ⟨e, s, t, s', inner⟩ := c
  rw [all, allOf_eq]

end Call

/-! ### The calls on subexpressions -/

section Inner

variable {callee : String} {ps : List Ty} {es : List Tree} {e : Tree} {b : Bool} {s s' : Checker}
  {t u : Ty} {cs : List Call}

lemma StatementCourse.map_expression (h : StatementCourse b u es s cs t s') :
    cs.map Call.expression = es := by
  induction h with
  | nil => rfl
  | cons _ _ ih => rw [List.map_cons, ih]

lemma ArgumentCourse.map_expression (h : ArgumentCourse callee ps es s cs b s') :
    cs.map Call.expression <+: es := by
  induction h with
  | nil => exact List.prefix_rfl
  | refused => exact List.prefix_append [_] _
  | accepted _ _ _ ih => exact (List.prefix_cons_inj _).mpr ih

/-- A call makes calls on the subexpressions from left to right, from the first one on. -/
lemma Course.map_expression (h : Course e s cs t s') : cs.map Call.expression <+: e.children := by
  cases h with
  | block h => exact h.map_expression ▸ List.prefix_rfl
  | call _ _ h => exact h.map_expression
  | literal => exact List.nil_prefix
  | bound => exact List.nil_prefix
  | unbound => exact List.nil_prefix
  | loopJump => exact List.nil_prefix
  | unknownCall => exact List.nil_prefix
  | miscountedCall => exact List.nil_prefix
  | _ => exact List.prefix_rfl

end Inner

namespace Call

variable {c : Call}

lemma Sound.children_eq (h : c.Sound) :
    c.expression.children = c.inner.map expression ++ c.skipped := by
  obtain ⟨-, hcourse, -⟩ := h
  obtain ⟨rest, hrest⟩ := hcourse.map_expression
  rw [skipped, ← hrest, ← List.length_map expression, List.drop_left]

/-- The expressions that are judged in a call, and the parts of those that it leaves out, are the
parts of its expression. -/
lemma Sound.perm_parts (h : c.Sound) :
    (c.all.map expression ++ c.all.flatMap fun d => d.skipped.flatMap Tree.parts).Perm
      c.expression.parts := by
  induction c using innerInduction with
  | h c ih =>
      obtain ⟨-, -, hinner⟩ := id h
      rw [all_eq, Tree.parts_eq, h.children_eq, List.map_cons, List.flatMap_cons, List.cons_append,
        List.map_flatMap, List.flatMap_assoc, List.flatMap_append, List.flatMap_map]
      refine List.Perm.cons _ ?_
      have hparts : (c.inner.flatMap fun d => d.all.map expression ++
          d.all.flatMap fun d => d.skipped.flatMap Tree.parts).Perm
            (c.inner.flatMap fun d => d.expression.parts) :=
        List.Perm.flatMap_left _ fun d hd => ih d hd (hinner d hd)
      have hsplit := (List.flatMap_append_perm c.inner (fun d => d.all.map expression)
        fun d => d.all.flatMap fun d => d.skipped.flatMap Tree.parts).trans hparts
      calc _
        _ = (c.inner.flatMap fun d => d.all.map expression) ++ (c.skipped.flatMap Tree.parts ++
              c.inner.flatMap fun d => d.all.flatMap fun d => d.skipped.flatMap Tree.parts) := rfl
        _ ~ ((c.inner.flatMap fun d => d.all.map expression) ++
              c.inner.flatMap fun d => d.all.flatMap fun d => d.skipped.flatMap Tree.parts) ++
              c.skipped.flatMap Tree.parts := by
            rw [List.append_assoc]
            exact List.perm_append_comm.append_left _
        _ ~ (c.inner.flatMap fun d => d.expression.parts) ++ c.skipped.flatMap Tree.parts :=
            hsplit.append_right _

/-- The expressions are judged in the order of the parts. -/
lemma Sound.sublist_parts (h : c.Sound) : c.all.map expression <+ c.expression.parts := by
  induction c using innerInduction with
  | h c ih =>
      obtain ⟨-, -, hinner⟩ := id h
      rw [all_eq, Tree.parts_eq, h.children_eq, List.map_cons, List.map_flatMap,
        List.flatMap_append, List.flatMap_map]
      have hparts : (c.inner.flatMap fun d => d.all.map expression) <+
          c.inner.flatMap fun d => d.expression.parts :=
        List.Sublist.flatMap_right _ fun d hd => ih d hd (hinner d hd)
      exact (hparts.trans (List.sublist_append_left _ _)).cons_cons _

end Call

/-! ### The states before the calls -/

section States

variable {callee : String} {ps : List Ty} {es : List Tree} {e : Tree} {b : Bool}
  {s s' r : Checker} {t u : Ty} {cs : List Call} {c d : Call} {log : Log}

lemma StatementCourse.turnsTo (h : StatementCourse b u es s cs t s') (hcs : ∀ c ∈ cs, c.Sound)
    (hd : d ∈ cs) : TurnsToStatement b es s d.expression d.before := by
  induction h with
  | nil => cases hd
  | @cons b u es s t s' c cs hc others ih =>
      obtain ⟨hsound, hcs⟩ := List.forall_mem_cons.mp hcs
      obtain ⟨hrun, -, -⟩ := hsound
      rcases List.mem_cons.mp hd with rfl | hd
      · exact hc ▸ .first
      · exact .later (hc ▸ hrun) (ih hcs hd)

lemma ArgumentCourse.turnsTo (h : ArgumentCourse callee ps es s cs b s') (hcs : ∀ c ∈ cs, c.Sound)
    (hd : d ∈ cs) : ∃ p, TurnsToArgument ps es s p d.expression d.before := by
  induction h with
  | nil => cases hd
  | refused hc =>
      obtain rfl := List.mem_singleton.mp hd
      subst hc
      exact ⟨_, .first⟩
  | accepted hc hvalid _ ih =>
      obtain ⟨hsound, hcs⟩ := List.forall_mem_cons.mp hcs
      obtain ⟨hrun, -, -⟩ := hsound
      subst hc
      rcases List.mem_cons.mp hd with rfl | hd
      · exact ⟨_, .first⟩
      · obtain ⟨p, hturns⟩ := ih hcs hd
        exact ⟨p, .later hvalid hrun hturns⟩

/-- A call is made where the run comes to a subexpression. -/
lemma Course.turnsTo (h : Course e s cs t s') (hcs : ∀ c ∈ cs, c.Sound) (hd : d ∈ cs) :
    TurnsTo e s d.expression d.before := by
  have hrun : ∀ c ∈ cs, judge c.expression c.before = .ok (c.type, c.after) := fun c hc => by
    obtain ⟨hrun, -, -⟩ := hcs c hc
    exact hrun
  cases h with
  | literal => cases hd
  | bound => cases hd
  | unbound => cases hd
  | bareReturn => cases hd
  | loopJump => cases hd
  | unknownCall => cases hd
  | miscountedCall => cases hd
  | binding hc =>
      obtain rfl := List.mem_singleton.mp hd
      exact hc ▸ .value
  | block h => exact .statement (h.turnsTo hcs hd)
  | @cond _ _ _ c b hc hb =>
      have hfirst := hrun _ List.mem_cons_self
      subst hc
      rcases List.mem_cons.mp hd with rfl | hd
      · exact .condition
      · obtain rfl := List.mem_singleton.mp hd
        exact hb ▸ .thenBlock hfirst
  | @condElse _ _ _ c b e hc hb he =>
      have hfirst := hrun c List.mem_cons_self
      have hsecond := hrun b (by simp)
      subst hc
      rcases List.mem_cons.mp hd with rfl | hd
      · exact .condition
      rcases List.mem_cons.mp hd with rfl | hd
      · exact hb ▸ .thenBlock hfirst
      · obtain rfl := List.mem_singleton.mp hd
        exact he ▸ .elseBlock hfirst (hb ▸ hsecond)
  | @binary _ _ _ _ a b ha hb =>
      have hfirst := hrun _ List.mem_cons_self
      subst ha
      rcases List.mem_cons.mp hd with rfl | hd
      · exact .left
      · obtain rfl := List.mem_singleton.mp hd
        exact hb ▸ .right hfirst
  | unary hc =>
      obtain rfl := List.mem_singleton.mp hd
      exact hc ▸ .operand
  | valueReturn hc =>
      obtain rfl := List.mem_singleton.mp hd
      exact hc ▸ .returned
  | call hg hcount h =>
      obtain ⟨p, hturns⟩ := h.turnsTo hcs hd
      exact .argument hg hcount hturns
  | @subscript _ _ _ a b ha hb =>
      have hfirst := hrun _ List.mem_cons_self
      subst ha
      rcases List.mem_cons.mp hd with rfl | hd
      · exact .subscripted
      · obtain rfl := List.mem_singleton.mp hd
        exact hb ▸ .index hfirst

/-- All errors of the log have been recorded, and if no others have, the state is clean. -/
structure Checker.Since (log : Log) (s : Checker) : Prop where
  errors : log.errors <+: s.log.errors
  clean : s.log.errors = log.errors → s.Clean

lemma Checker.Since.turnsTo (h : s.Since log) (hturns : TurnsTo e s d.expression r) :
    r.Since log := by
  refine ⟨h.errors.trans hturns.inside.errors, fun hquiet => ?_⟩
  obtain ⟨h₁, h₂⟩ := prefix_squeeze h.errors hturns.inside.errors hquiet
  exact hturns.clean (h.clean h₁) h₂

/-- What an expression gets is the type of a value, if nothing was complained of. -/
lemma Checker.Since.judge (h : s.Since log) (hrun : judge e s = .ok (t, s'))
    (hquiet : s'.log.errors = log.errors) : t.isInvalid = false ∧ s'.Clean := by
  obtain ⟨h₁, h₂⟩ := prefix_squeeze h.errors (judge_kept hrun).errors hquiet
  exact (h.clean h₁).judge hrun h₂

/-- A call that gives the type of a failure returns with an error recorded. -/
lemma Checker.Since.exists_error (h : s.Since log) (hrun : Typing.judge e s = .ok (t, s'))
    (hinvalid : t.isInvalid = true) : ∃ d ds, s'.log.errors = log.errors ++ d :: ds := by
  obtain ⟨found, hfound⟩ := h.errors.trans (judge_kept hrun).errors
  cases found with
  | nil =>
      rw [List.append_nil] at hfound
      rw [(h.judge hrun hfound.symm).1] at hinvalid
      cases hinvalid
  | cons d ds => exact ⟨d, ds, hfound.symm⟩

/-- All calls made in a sound call are sound, and of all their states the same can be said. -/
lemma Call.Sound.of_mem_all (h : c.Sound) (hs : c.before.Since log) (hd : d ∈ c.all) :
    d.Sound ∧ d.before.Since log := by
  induction c using innerInduction with
  | h c ih =>
      obtain ⟨-, hcourse, hinner⟩ := id h
      rw [all_eq] at hd
      rcases List.mem_cons.mp hd with rfl | hd
      · exact ⟨h, hs⟩
      · obtain ⟨k, hk, hd⟩ := List.mem_flatMap.mp hd
        exact ih k hk (hinner k hk) (hs.turnsTo (hcourse.turnsTo hinner hk)) hd

end States

/-! ### The arguments of functions -/

/-- The calls on the arguments of a function, and whether all are accepted: the first one that is
not of the type of its parameter is the last. -/
inductive TakesArguments : List Ty → List Tree → List Call → Bool → Prop
  | nil : TakesArguments [] [] [] true
  | refused {p ps es} {c : Call} (h : c.type.isInvalid ∨ c.type ≠ p) :
      TakesArguments (p :: ps) (c.expression :: es) [c] false
  | accepted {p ps es b} {c : Call} {cs : List Call} (hvalid : c.type.isInvalid = false)
      (htype : c.type = p) (others : TakesArguments ps es cs b) :
      TakesArguments (p :: ps) (c.expression :: es) (c :: cs) b

/-- The calls that a call of a function makes on the arguments, and whether all are accepted. -/
inductive Applies (known : Option Signature) (arguments : List Tree) : List Call → Bool → Prop
  | unknown (h : known = none) : Applies known arguments [] false
  | miscounted {g} (h : known = some g) (hcount : g.parameters.length ≠ arguments.length) :
      Applies known arguments [] false
  | counted {g cs accepted} (h : known = some g)
      (hcount : g.parameters.length = arguments.length)
      (harguments : TakesArguments g.parameters arguments cs accepted) :
      Applies known arguments cs accepted

section Arguments

variable {id : NodeId} {l : Location} {callee : String} {known : Option Signature} {ps : List Ty}
  {arguments : List Tree} {b : Bool} {s s' : Checker} {t : Ty} {cs : List Call}

lemma ArgumentCourse.takesArguments (h : ArgumentCourse callee ps arguments s cs b s') :
    TakesArguments ps arguments cs b := by
  induction h with
  | nil => exact .nil
  | refused _ h => exact .refused h
  | accepted _ hvalid _ ih => exact .accepted hvalid rfl ih

/-- A call of a function that is not accepted fails. -/
lemma Course.applies (h : Course (.node id l (.call callee arguments)) s cs t s') :
    ∃ accepted, Applies (s.signatures.find? callee) arguments cs accepted ∧
      (accepted = false → t = .invalid) := by
  cases h with
  | literal hshape => cases hshape
  | unknownCall hg => exact ⟨false, .unknown hg, fun _ => rfl⟩
  | miscountedCall hg hcount => exact ⟨false, .miscounted hg hcount, fun _ => rfl⟩
  | @call _ _ _ _ _ g _ accepted _ hg hcount h =>
      refine ⟨accepted, .counted hg hcount h.takesArguments, fun hfailed => ?_⟩
      rw [hfailed]
      rfl

/-- All arguments of an accepted call are judged. -/
lemma TakesArguments.map_expression (h : TakesArguments ps arguments cs true) :
    cs.map Call.expression = arguments := by
  generalize haccepted : true = accepted at h
  induction h with
  | nil => rfl
  | refused => cases haccepted
  | accepted _ _ _ ih => rw [List.map_cons, ih haccepted]

lemma Applies.map_expression (h : Applies known arguments cs true) :
    cs.map Call.expression = arguments := by
  cases h with
  | counted _ _ h => exact h.map_expression

/-- Only a call of a function leaves subexpressions out, where the forms are those of programs. -/
lemma Course.exists_call_of_skips {e : Tree} (h : Course e s cs t s') (hform : e.WellFormed) :
    cs.map Call.expression = e.children ∨
      ∃ id l callee arguments, e = .node id l (.call callee arguments) := by
  cases h with
  | unknownCall => exact .inr ⟨_, _, _, _, rfl⟩
  | miscountedCall => exact .inr ⟨_, _, _, _, rfl⟩
  | call => exact .inr ⟨_, _, _, _, rfl⟩
  | block h => exact .inl h.map_expression
  | @literal _ _ shape _ _ hshape =>
      cases shape <;> first | exact .inl rfl | cases hshape
  | loopJump hop =>
      obtain hreturn | ⟨-, rfl⟩ := hform _ _ _ (.self _)
      · exact absurd hreturn hop
      · exact .inl rfl
  | _ => exact .inl rfl

end Arguments

/-- What can be relied on of a call in a check that begins with the findings of `log`. -/
structure Call.Regular (log : Log) (c : Call) : Prop where
  /-- The call is a run of the checker. -/
  run : judge c.expression c.before = .ok (c.type, c.after)
  /-- The calls made in it are on the first subexpressions, from left to right. -/
  inner : c.expression.children = c.inner.map expression ++ c.skipped
  /-- Only a call of a function leaves subexpressions out. -/
  whole : c.skipped ≠ [] →
    ∃ id l callee arguments, c.expression = .node id l (.call callee arguments)
  /-- A call of a function judges no argument, if the function is not known or has another number of
  parameters, and the arguments up to the first that is refused otherwise. If it does not accept all
  arguments, it gives the type of a failure and returns with an error recorded. -/
  applies : ∀ {id l callee arguments}, c.expression = .node id l (.call callee arguments) →
    ∃ accepted, Applies (c.before.signatures.find? callee) arguments c.inner accepted ∧
      (accepted = true → c.skipped = []) ∧
      (accepted = false →
        c.type = .invalid ∧ ∃ d ds, c.after.log.errors = log.errors ++ d :: ds)

lemma Call.Sound.regular {c : Call} {log : Log} (h : c.Sound) (hs : c.before.Since log)
    (hform : c.expression.WellFormed) : c.Regular log := by
  have hchildren := h.children_eq
  obtain ⟨hrun, hcourse, -⟩ := h
  refine ⟨hrun, hchildren, fun hskipped => ?_, fun {id l callee arguments} hcall => ?_⟩
  · rcases hcourse.exists_call_of_skips hform with hall | hcall
    · rw [← hall, List.self_eq_append_right] at hchildren
      exact absurd hchildren hskipped
    · exact hcall
  · rw [hcall] at hcourse hchildren
    obtain ⟨accepted, happlies, hfailed⟩ := hcourse.applies
    refine ⟨accepted, happlies, ?_, fun h => ⟨hfailed h, hs.exists_error hrun ?_⟩⟩
    · rintro rfl
      rw [happlies.map_expression] at hchildren
      exact List.self_eq_append_right.mp hchildren
    · rw [hfailed h]
      rfl

/-! ### Checks of programs -/

/-- The calls on the bodies of some functions, and the state after the last of them. -/
inductive FunctionCourse : List (Prototype × Tree) → Checker → List Call → Checker → Prop
  | nil {s} : FunctionCourse [] s [] s
  | cons {p fs s s'} {c : Call} {cs : List Call} (hc : c.before = s.entered p)
      (others : FunctionCourse fs c.after.exited cs s') :
      FunctionCourse ((p, c.expression) :: fs) s (c :: cs) s'

section Functions

variable {p : Prototype} {body : Tree} {fs : List (Prototype × Tree)} {s s' : Checker} {t : Ty}
  {cs : List Call} {log : Log}

lemma setReturnType_of_ok {calls : List Call} (o : Option Ty) :
    (liftM (setReturnType o) : Recording Unit) calls s
      = .ok (((), calls), { s with returnType := o }) :=
  lift_of_ok (modify_eq_ok.mpr rfl)

/-- The check of a function records the call on its body. -/
lemma checkFunctionWith_of_ok {calls calls' : List Call}
    (h : judgeWith recorder body calls (s.entered p) = .ok ((t, calls'), s')) :
    checkFunctionWith recorder p body calls s = .ok (((), calls'), s'.exited) := by
  have hopened : (s.registered p).opened.scopes = [] :: s.scopes := rfl
  rw [checkFunctionWith, bind_of_ok (lift_of_ok (a := ()) (register_eq_ok.mpr rfl)),
    bind_of_ok (lift_of_ok (a := ()) (pushScope_eq_ok.mpr rfl)),
    bind_of_ok (lift_of_ok (a := ()) ((bindParameters_eq_ok hopened).mpr rfl)),
    bind_of_ok (setReturnType_of_ok _)]
  refine (bind_of_ok h).trans ?_
  rw [bind_of_ok (setReturnType_of_ok _)]
  exact lift_of_ok (popScope_eq_ok.mpr rfl)

lemma Checker.Since.entered (h : s.Since log) (hp : ValidPrototype p) :
    (s.entered p).Since log := by
  refine ⟨h.errors.trans (s.prefix_complained_errors _), fun hquiet => ?_⟩
  exact (h.clean (prefix_squeeze h.errors (s.prefix_complained_errors _) hquiet).1).entered hp

/-- After a function the same can be said as before it. -/
lemma Checker.Since.checkFunction (h : s.Since log) (hp : ValidPrototype p)
    (hrun : Typing.judge body (s.entered p) = .ok (t, s')) : s'.exited.Since log where
  errors := (h.entered hp).errors.trans (judge_kept hrun).errors
  clean hquiet := ((h.entered hp).judge hrun hquiet).2.exited

/-- Functions are recorded one after the other. -/
lemma exists_functionCourse (h : checkFunctions fs s = .ok ((), s')) :
    ∃ cs, FunctionCourse fs s cs s' ∧ (∀ c ∈ cs, c.Sound) ∧
      ∀ calls, checkFunctionsWith recorder fs calls s = .ok (((), calls ++ cs), s') := by
  induction fs generalizing s with
  | nil =>
      obtain ⟨-, rfl⟩ := pure_eq_ok.mp h
      refine ⟨[], .nil, by simp, fun calls => ?_⟩
      rw [List.append_nil]
      rfl
  | cons f fs ih =>
      obtain ⟨_, s₁, hf, hrest⟩ := bind_eq_ok.mp h
      obtain ⟨t, s₂, hbody, rfl⟩ := checkFunction_eq_ok.mp hf
      obtain ⟨inner, hsound, hrecorded⟩ := exists_call f.2 _ _ _ hbody
      obtain ⟨cs, hcourse, hsounds, hrecordeds⟩ := ih hrest
      let c : Call := ⟨f.2, s.entered f.1, t, s₂, inner⟩
      refine ⟨c :: cs, .cons (c := c) rfl hcourse, List.forall_mem_cons.mpr ⟨hsound, hsounds⟩,
        fun calls => ?_⟩
      rw [checkFunctionsWith, bind_of_ok (checkFunctionWith_of_ok (hrecorded calls)), hrecordeds,
        List.append_assoc]
      rfl

lemma FunctionCourse.map_expression (h : FunctionCourse fs s cs s') :
    cs.map Call.expression = fs.map Prod.snd := by
  induction h with
  | nil => rfl
  | cons _ _ ih => rw [List.map_cons, List.map_cons, ih]

/-- Of the states before the calls the same can be said as before all of them. -/
lemma FunctionCourse.since (h : FunctionCourse fs s cs s') (hs : s.Since log)
    (hfs : ∀ f ∈ fs, ValidPrototype f.1) (hcs : ∀ c ∈ cs, c.Sound) :
    ∀ c ∈ cs, c.before.Since log := by
  induction h with
  | nil => simp
  | cons hc _ ih =>
      obtain ⟨hp, hfs⟩ := List.forall_mem_cons.mp hfs
      obtain ⟨hsound, hcs⟩ := List.forall_mem_cons.mp hcs
      obtain ⟨hrun, -, -⟩ := hsound
      refine List.forall_mem_cons.mpr ⟨hc ▸ hs.entered hp, ih ?_ hfs hcs⟩
      exact hs.checkFunction hp (hc ▸ hrun)

end Functions

end Typing

open Typing Parsing

/-- The calls of a check of a program, one for each body with those made in it, and what the check
finds. -/
def recordCheck (p : Program) (log : Log) : Except MissingNode (List Call × Array Ty × Log) :=
  match (checkProgramWith recorder p).run [] (.start p.arena.size log) with
  | .ok ((_, calls), s) => .ok (calls, s.types, s.log)
  | .error e => .error e

lemma since_declared {p : Program} (hvalid : p.StatedTypesValid) (log : Log) :
    (p.declared log).Since log :=
  ⟨prefix_declarations_errors p.declarations (.start p.arena.size log), fun _ => hvalid.clean log⟩

/-- A check records a sound call on each body. -/
lemma exists_recordCheck {p : Program} {log out : Log} {types : Array Ty}
    (h : typeCheck p log = .ok (types, out)) :
    ∃ calls s, recordCheck p log = .ok (calls, types, out) ∧
      FunctionCourse p.bodies (p.declared log) calls s ∧ (∀ c ∈ calls, c.Sound) ∧
      out = s.log := by
  obtain ⟨s, hprogram, rfl, rfl⟩ := typeCheck_eq_ok.mp h
  have hfunctions : checkFunctions p.bodies (p.declared log) = .ok ((), s) :=
    checkProgram_eq_ok.mp hprogram
  obtain ⟨calls, hcourse, hsound, hcalls⟩ := exists_functionCourse hfunctions
  refine ⟨calls, s, ?_, hcourse, hsound, rfl⟩
  have hdeclared : checkDeclarations p.declarations (.start p.arena.size log)
      = .ok ((), p.declared log) := checkDeclarations_eq_ok.mpr rfl
  rw [recordCheck, StateT.run, checkProgramWith, bind_of_ok (lift_of_ok hdeclared), hcalls]
  rfl

/-- The calls on the bodies of a program are made one after the other, in the order of the
functions. -/
lemma map_expression_bodies {p : Program} {calls : List Call} {s s' : Checker}
    (h : FunctionCourse p.bodies s calls s') :
    calls.map Call.expression = p.functions.map p.body := by
  rw [h.map_expression, Program.bodies, List.map_map]
  rfl

/-- Of the states before the calls on the bodies the same can be said as before a check. -/
lemma since_bodies {p : Program} {log : Log} {calls : List Call} {s : Checker}
    (hvalid : p.StatedTypesValid) (h : FunctionCourse p.bodies (p.declared log) calls s)
    (hsound : ∀ c ∈ calls, c.Sound) : ∀ c ∈ calls, c.before.Since log :=
  h.since (since_declared hvalid log) hvalid.bodies hsound

section Bodies

variable {calls : List Call} {bodies : List Tree} {hi : ℕ} {c d : Call} {e u : Tree} {i : NodeId}

/-- The expressions that are judged in the calls on some bodies, and the parts of those that are
left out, are the parts of the bodies. -/
lemma perm_parts_of_calls (hbodies : calls.map Call.expression = bodies)
    (hsound : ∀ c ∈ calls, c.Sound) :
    ((Call.allOf calls).map Call.expression ++
      (Call.allOf calls).flatMap fun d => d.skipped.flatMap Tree.parts).Perm
        (bodies.flatMap Tree.parts) := by
  subst hbodies
  rw [Call.allOf_eq, List.map_flatMap, List.flatMap_assoc, List.flatMap_map]
  refine (List.flatMap_append_perm calls (fun c => c.all.map Call.expression)
    fun c => c.all.flatMap fun d => d.skipped.flatMap Tree.parts).trans ?_
  exact List.Perm.flatMap_left _ fun c hc => (hsound c hc).perm_parts

/-- The expressions that are judged in the calls on some bodies are judged in the order of the
parts. -/
lemma sublist_parts_of_calls (hbodies : calls.map Call.expression = bodies)
    (hsound : ∀ c ∈ calls, c.Sound) :
    (Call.allOf calls).map Call.expression <+ bodies.flatMap Tree.parts := by
  subst hbodies
  rw [Call.allOf_eq, List.map_flatMap, List.flatMap_map]
  exact List.Sublist.flatMap_right _ fun c hc => (hsound c hc).sublist_parts

lemma mem_skippedParts_iff :
    u ∈ ((Call.allOf calls).flatMap fun d => d.skipped.flatMap Tree.parts) ↔
      ∃ c ∈ Call.allOf calls, ∃ e ∈ c.skipped, e.Contains u := by
  simp only [List.mem_flatMap, Tree.mem_parts_iff]

/-- Only parts of the bodies are judged. -/
lemma exists_contains_of_mem_allOf (hbodies : calls.map Call.expression = bodies)
    (hsound : ∀ c ∈ calls, c.Sound) (hc : c ∈ Call.allOf calls) :
    ∃ e ∈ bodies, e.Contains c.expression := by
  have hmem := (perm_parts_of_calls hbodies hsound).subset
    (List.mem_append_left _ (List.mem_map_of_mem hc))
  obtain ⟨e, he, hmem⟩ := List.mem_flatMap.mp hmem
  exact ⟨e, he, Tree.mem_parts_iff.mp hmem⟩

/-- Where parts have numbers of their own, none is judged twice, and none that is judged is part of
what is left out. -/
lemma once_of_calls (hbodies : calls.map Call.expression = bodies) (hsound : ∀ c ∈ calls, c.Sound)
    (hlaid : Tree.Laid 0 bodies hi) :
    ((Call.allOf calls).map fun c => c.expression.id).Nodup ∧
      ∀ c ∈ Call.allOf calls, ∀ d ∈ Call.allOf calls, ∀ e ∈ d.skipped, ∀ u, e.Contains u →
        c.expression.id ≠ u.id := by
  have hperm := (perm_parts_of_calls hbodies hsound).map Tree.id
  have hnodup := hperm.nodup_iff.mpr hlaid.nodup_parts
  rw [List.map_append, List.map_map, List.nodup_append'] at hnodup
  obtain ⟨honce, -, happart⟩ := hnodup
  refine ⟨honce, fun c hc d hd e he u hu hid => happart (List.mem_map_of_mem hc) ?_⟩
  exact List.mem_map.mpr ⟨u, mem_skippedParts_iff.mpr ⟨d, hd, e, he, hu⟩, hid.symm⟩

/-- What is not left out is judged. -/
lemma exists_call_or_skipped (hbodies : calls.map Call.expression = bodies)
    (hsound : ∀ c ∈ calls, c.Sound) (he : e ∈ bodies) (hu : e.Contains u) :
    (∃ c ∈ Call.allOf calls, c.expression = u) ∨
      ∃ c ∈ Call.allOf calls, ∃ e ∈ c.skipped, e.Contains u := by
  have hmem := (perm_parts_of_calls hbodies hsound).symm.subset
    (List.mem_flatMap.mpr ⟨e, he, Tree.mem_parts_iff.mpr hu⟩)
  rcases List.mem_append.mp hmem with hmem | hmem
  · exact .inl (List.mem_map.mp hmem)
  · exact .inr (mem_skippedParts_iff.mp hmem)

/-- All calls made in the calls on some bodies are sound. -/
lemma sound_of_mem_allOf {log : Log} (hsound : ∀ c ∈ calls, c.Sound)
    (hsince : ∀ c ∈ calls, c.before.Since log) (hc : c ∈ Call.allOf calls) :
    c.Sound ∧ c.before.Since log := by
  rw [Call.allOf_eq] at hc
  obtain ⟨b, hb, hc⟩ := List.mem_flatMap.mp hc
  exact (hsound b hb).of_mem_all (hsince b hb) hc

end Bodies

/-- What can be relied on of the calls of a check of a program, one for each body, with all calls
made in them. -/
structure Itinerary (p : Program) (log : Log) (calls : List Call) : Prop where
  /-- There is a call on each body, in the order of the functions. -/
  bodies : calls.map Call.expression = p.functions.map p.body
  /-- Each call is on a stored expression below a body. -/
  reaches : ∀ c ∈ Call.allOf calls, p.arena.tree c.expression.id = c.expression ∧
    ∃ f ∈ p.functions, p.arena.Reaches f.body c.expression.id
  /-- No two calls are on the same expression. -/
  once : ((Call.allOf calls).map fun c => c.expression.id).Nodup
  /-- There are calls on all expressions below the bodies but those below a subexpression that a
  call leaves out. -/
  complete : ∀ f ∈ p.functions, ∀ i, p.arena.Reaches f.body i →
    ((∃ c ∈ Call.allOf calls, c.expression.id = i) ↔
      ¬ ∃ c ∈ Call.allOf calls, ∃ e ∈ c.skipped, p.arena.Reaches e.id i)
  /-- What the calls do and leave out. -/
  regular : ∀ c ∈ Call.allOf calls, c.Regular log

lemma itinerary_of_calls {tokens : List Token} {log log' : Log} {p : Program} {calls : List Call}
    {s : Checker} (h : (parse tokens log).1 = some p)
    (hcourse : FunctionCourse p.bodies (p.declared log') calls s) (hsound : ∀ c ∈ calls, c.Sound) :
    Itinerary p log' calls := by
  obtain ⟨hstored, hlaid⟩ := stored_of_parse h
  have hbodies := map_expression_bodies hcourse
  have hsince := since_bodies (statedTypesValid_of_parse h) hcourse hsound
  obtain ⟨honce, happart⟩ := once_of_calls hbodies hsound hlaid
  have hpart : ∀ c ∈ Call.allOf calls, ∃ f ∈ p.functions, (p.body f).Contains c.expression := by
    intro c hc
    obtain ⟨e, he, hcontains⟩ := exists_contains_of_mem_allOf hbodies hsound hc
    obtain ⟨f, hf, rfl⟩ := List.mem_map.mp he
    exact ⟨f, hf, hcontains⟩
  have hskipped : ∀ c ∈ Call.allOf calls, ∀ e ∈ c.skipped, p.arena.Stores e := by
    intro c hc e he
    obtain ⟨f, hf, hcontains⟩ := hpart c hc
    exact (hstored f hf).contains
      (hcontains.trans (Tree.contains_of_mem_children (List.mem_of_mem_drop he)))
  refine ⟨hbodies, fun c hc => ?_, honce, fun f hf i hi => ⟨?_, fun hnone => ?_⟩, fun c hc => ?_⟩
  · obtain ⟨f, hf, hcontains⟩ := hpart c hc
    have hreaches := (hstored f hf).reaches hcontains
    rw [Program.body, p.arena.id_tree] at hreaches
    exact ⟨((hstored f hf).contains hcontains).tree_eq, f, hf, hreaches⟩
  · rintro ⟨c, hc, rfl⟩ ⟨d, hd, e, he, hreaches⟩
    obtain ⟨u, hu, hid⟩ := (hskipped d hd e he).exists_contains hreaches
    exact happart c hc d hd e he u hu hid.symm
  · have hbody : p.arena.Reaches (p.body f).id i := by rwa [Program.body, p.arena.id_tree]
    obtain ⟨u, hu, rfl⟩ := (hstored f hf).exists_contains hbody
    rcases exists_call_or_skipped hbodies hsound (List.mem_map_of_mem hf) hu with
      ⟨c, hc, rfl⟩ | ⟨c, hc, e, he, hu⟩
    · exact ⟨c, hc, rfl⟩
    · exact absurd ⟨c, hc, e, he, (hskipped c hc e he).reaches hu⟩ hnone
  · obtain ⟨f, hf, hcontains⟩ := hpart c hc
    obtain ⟨hc, hsince⟩ := sound_of_mem_allOf hsound hsince hc
    exact hc.regular hsince fun i l shape hu =>
      (wellFormed_of_parse h hf).2 i l shape (hcontains.trans hu)

/-- **Every expression is judged once, unless a failed call leaves it out.** A check of a parsed
program is a check by the checker with hooks, which is the checker if they add nothing. With hooks
that record its calls it finds the same, and it judges the expressions below the bodies, none of
them twice, and all but those in arguments that a call of a function leaves out. Such a call gives
the type of a failure and returns with an error recorded. -/
theorem recordCheck_of_parse {tokens : List Token} {log : Log} {p : Program}
    (h : (parse tokens log).1 = some p) (log' : Log) :
    checkProgramWith .plain p = checkProgram p ∧
      ∃ types out calls, typeCheck p log' = .ok (types, out) ∧
        recordCheck p log' = .ok (calls, types, out) ∧ Itinerary p log' calls := by
  obtain ⟨types, out, hrun⟩ := exists_typeCheck_of_parse h log'
  obtain ⟨calls, s, hcalls, hcourse, hsound, -⟩ := exists_recordCheck hrun
  exact ⟨checkProgramWith_plain p, types, out, calls, hrun, hcalls,
    itinerary_of_calls h hcourse hsound⟩

/-- The tokens of `func f(x: int, y: int) { f(true, 1); }`. -/
def refusedTokens : List Token :=
  [⟨.funcWord, "func", ⟨0, 0⟩⟩, ⟨.ident, "f", ⟨0, 5⟩⟩, ⟨.leftParen, "(", ⟨0, 6⟩⟩,
    ⟨.ident, "x", ⟨0, 7⟩⟩, ⟨.colon, ":", ⟨0, 8⟩⟩, ⟨.ident, "int", ⟨0, 10⟩⟩,
    ⟨.comma, ",", ⟨0, 13⟩⟩, ⟨.ident, "y", ⟨0, 15⟩⟩, ⟨.colon, ":", ⟨0, 16⟩⟩,
    ⟨.ident, "int", ⟨0, 18⟩⟩, ⟨.rightParen, ")", ⟨0, 21⟩⟩, ⟨.leftBrace, "\x7b", ⟨0, 23⟩⟩,
    ⟨.ident, "f", ⟨0, 25⟩⟩, ⟨.leftParen, "(", ⟨0, 26⟩⟩, ⟨.trueWord, "true", ⟨0, 27⟩⟩,
    ⟨.comma, ",", ⟨0, 31⟩⟩, ⟨.integer, "1", ⟨0, 33⟩⟩, ⟨.rightParen, ")", ⟨0, 34⟩⟩,
    ⟨.semicolon, ";", ⟨0, 35⟩⟩, ⟨.rightBrace, "\x7d", ⟨0, 37⟩⟩]

/-- The program of `refusedTokens`. -/
def refusedProgram : Program where
  arena := (((Arena.empty.add (.boolean true) ⟨0, 27⟩).add (.number "1" false) ⟨0, 33⟩).add
    (.call "f" [0, 1]) ⟨0, 25⟩).add (.block [2]) ⟨0, 23⟩
  functions := [⟨⟨"f", [⟨"x", .int, ⟨0, 7⟩⟩, ⟨"y", .int, ⟨0, 15⟩⟩], .void, ⟨0, 5⟩⟩, 3⟩]

/-- Of the arguments of a call the first is refused, and the second is not judged. -/
theorem refused_recordCheck :
    (parse refusedTokens {}).1 = some refusedProgram ∧
      ∃ types out calls, typeCheck refusedProgram {} = .ok (types, out) ∧
        recordCheck refusedProgram {} = .ok (calls, types, out) ∧
        Itinerary refusedProgram {} calls ∧
        (Call.allOf calls).map (fun c => c.expression.id) = [3, 2, 0] := by
  have hparse : (parse refusedTokens {}).1 = some refusedProgram := by decide +kernel
  have hnumbers : (recordCheck refusedProgram {}).map
      (fun r => (Call.allOf r.1).map fun c => c.expression.id) = .ok [3, 2, 0] := by
    decide +kernel
  obtain ⟨-, types, out, calls, hrun, hcalls, hitinerary⟩ := recordCheck_of_parse hparse {}
  rw [hcalls] at hnumbers
  exact ⟨hparse, types, out, calls, hrun, hcalls, hitinerary, Except.ok.inj hnumbers⟩

end Fern
