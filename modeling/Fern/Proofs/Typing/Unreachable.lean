import Fern.Proofs.Typing.Itinerary
import Fern.Proofs.Typing.Muting

/-!
The warnings of a check, which are about code that is not reached.

* `Tree.FollowsReturn`: a statement comes right after a `return` in a block.
* `Call.late`: the statements that the calls made in a call come to right after a `return`.
* `Call.Sound.warnings`: a call warns of these statements, and of nothing else.
* `warnings_of_typeCheck`: **the warnings of a check**.
-/

namespace Fern

open scoped List

/-- The expression is a block, and `u` is a statement of it right after a `return`. -/
def Tree.FollowsReturn (e u : Tree) : Prop :=
  ∃ id l statements r, e = .node id l (.block statements) ∧ [r, u] <:+: statements ∧
    r.isReturn = true

/-- The warning about a statement that is not reached. -/
def Tree.unreachable (u : Tree) : Diagnostic := .warning .unreachableCode u.location

namespace Typing

/-- A call on a block judges all statements. -/
lemma Course.map_statements {id : NodeId} {l : Location} {statements : List Tree} {s s' : Checker}
    {cs : List Call} {t : Ty} (h : Course (.node id l (.block statements)) s cs t s') :
    cs.map Call.expression = statements := by
  cases h with
  | literal hshape => cases hshape
  | block h => exact h.map_expression

/-! ### Statements after a `return` -/

namespace Call

mutual

/-- The statements that the calls made in a call come to right after a `return`, in order. -/
def late : Call → List Tree
  | ⟨e, _, _, _, inner⟩ => lateOf e.isBlock false inner

/-- The same for some of the calls in a call, the first of which may come after a `return`. -/
def lateOf (inBlock afterReturn : Bool) : List Call → List Tree
  | [] => []
  | c :: cs =>
    (if inBlock && afterReturn then [c.expression] else []) ++ late c ++
      lateOf inBlock c.expression.isReturn cs

end

variable {b : Bool} {c : Call} {cs : List Call} {u : Tree}

lemma late_eq (c : Call) : c.late = lateOf c.expression.isBlock false c.inner := by
  obtain ⟨e, s, t, s', inner⟩ := c
  rw [late]

lemma lateOf_false (cs : List Call) : lateOf false b cs = cs.flatMap late := by
  induction cs generalizing b with
  | nil => rfl
  | cons c cs ih =>
      rw [lateOf, ih, Bool.false_and, if_neg Bool.false_ne_true, List.flatMap_cons,
        List.nil_append]

/-- In a block, the first statement may be one of them, and so may any that comes after a
`return`. -/
lemma mem_lateOf_true : u ∈ lateOf true b cs ↔ (b = true ∧ [u] <+: cs.map expression) ∨
    (∃ r, [r, u] <:+: cs.map expression ∧ r.isReturn = true) ∨ ∃ c ∈ cs, u ∈ c.late := by
  induction cs generalizing b with
  | nil => simp [lateOf]
  | cons c cs ih =>
      have hfirst : [u] <+: (c :: cs).map expression ↔ u = c.expression := by
        rw [List.map_cons, List.cons_prefix_cons, and_iff_left List.nil_prefix]
      have hpair : (∃ r, [r, u] <:+: (c :: cs).map expression ∧ r.isReturn = true) ↔
          (c.expression.isReturn = true ∧ [u] <+: cs.map expression) ∨
            ∃ r, [r, u] <:+: cs.map expression ∧ r.isReturn = true := by
        simp only [List.map_cons, List.infix_cons_iff, List.cons_prefix_cons, or_and_right,
          exists_or, and_assoc, exists_eq_left]
        rw [and_comm]
      have hown : u ∈ (if (true && b) = true then [c.expression] else []) ↔
          b = true ∧ u = c.expression := by
        cases b <;> simp
      have hlate : (∃ d ∈ c :: cs, u ∈ d.late) ↔ u ∈ c.late ∨ ∃ d ∈ cs, u ∈ d.late :=
        List.exists_mem_cons_iff ..
      rw [hfirst, hpair, hlate, lateOf, List.mem_append, List.mem_append, hown, ih]
      simp only [or_assoc, or_left_comm]

/-- The statements after a `return` are judged, in the order in which they are warned of. -/
lemma late_sublist (c : Call) : c.late <+ (c.inner.flatMap all).map expression := by
  induction c using innerInduction with
  | h c ih =>
      have hlate : ∀ cs : List Call, (∀ d ∈ cs, d.late <+ (d.inner.flatMap all).map expression) →
          ∀ b, lateOf c.expression.isBlock b cs <+ (cs.flatMap all).map expression := by
        intro cs hcs
        induction cs with
        | nil => exact fun b => List.Sublist.slnil
        | cons d ds ihds =>
            intro b
            obtain ⟨hd, hds⟩ := List.forall_mem_cons.mp hcs
            rw [lateOf, List.flatMap_cons, List.map_append, all_eq, List.map_cons]
            refine List.Sublist.append ?_ (ihds hds _)
            split_ifs
            · exact hd.cons_cons _
            · exact hd.cons _
      exact late_eq c ▸ hlate c.inner ih false

lemma Sound.map_statements {id : NodeId} {l : Location} {statements : List Tree} (h : c.Sound)
    (he : c.expression = .node id l (.block statements)) : c.inner.map expression = statements := by
  obtain ⟨-, hcourse, -⟩ := h
  exact (he ▸ hcourse).map_statements

/-- The statements in question are those that come right after a `return` in a block that is
judged. -/
lemma Sound.mem_late_iff (h : c.Sound) :
    u ∈ c.late ↔ ∃ d ∈ c.all, d.expression.FollowsReturn u := by
  induction c using innerInduction with
  | h c ih =>
      obtain ⟨-, -, hinner⟩ := id h
      have hall : (∃ d ∈ c.all, d.expression.FollowsReturn u) ↔
          c.expression.FollowsReturn u ∨ ∃ d ∈ c.inner, u ∈ d.late := by
        rw [all_eq, List.exists_mem_cons_iff]
        refine or_congr_right ⟨?_, ?_⟩
        · rintro ⟨d, hd, hfollows⟩
          obtain ⟨k, hk, hd⟩ := List.mem_flatMap.mp hd
          exact ⟨k, hk, (ih k hk (hinner k hk)).mpr ⟨d, hd, hfollows⟩⟩
        · rintro ⟨k, hk, hu⟩
          obtain ⟨d, hd, hfollows⟩ := (ih k hk (hinner k hk)).mp hu
          exact ⟨d, List.mem_flatMap.mpr ⟨k, hk, hd⟩, hfollows⟩
      rw [hall, late_eq]
      cases hblock : c.expression.isBlock with
      | false =>
          have hnone : ¬c.expression.FollowsReturn u := by
            rintro ⟨id, l, statements, r, he, -⟩
            rw [he] at hblock
            cases hblock
          rw [lateOf_false, List.mem_flatMap, or_iff_right hnone]
      | true =>
          have hown : c.expression.FollowsReturn u ↔
              ∃ r, [r, u] <:+: c.inner.map expression ∧ r.isReturn = true := by
            constructor
            · rintro ⟨id, l, statements, r, he, hpair, hr⟩
              exact ⟨r, (h.map_statements he).symm ▸ hpair, hr⟩
            · rintro ⟨r, hpair, hr⟩
              cases he : c.expression with
              | missing => rw [he] at hblock; cases hblock
              | node id l shape =>
                  cases shape with
                  | block statements =>
                      exact ⟨id, l, statements, r, rfl, h.map_statements he ▸ hpair, hr⟩
                  | _ => rw [he] at hblock; cases hblock
          rw [mem_lateOf_true, hown, or_iff_right (fun h => Bool.false_ne_true h.1)]

end Call

/-! ### The warnings of a call -/

namespace Checker

lemma warnings_complained (k : Option Complaint) (s : Checker) :
    (s.complained k).log.warnings = s.log.warnings := by
  cases k with
  | none => rfl
  | some k => exact (congrArg Log.warnings (k.record_eq_append s.log)).trans (List.append_nil _)

lemma warnings_warned (b : Bool) (u : Tree) (s : Checker) :
    (s.warned b u.location).log.warnings
      = s.log.warnings ++ (if b then [u] else []).map Tree.unreachable := by
  cases b with
  | false => exact (List.append_nil _).symm
  | true => rfl

end Checker

/-- The call warns of the statements that it comes to right after a `return`. -/
def Call.Warns (c : Call) : Prop :=
  c.after.log.warnings = c.before.log.warnings ++ c.late.map Tree.unreachable

section Warnings

variable {callee : String} {ps : List Ty} {es : List Tree} {e : Tree} {b : Bool} {s s' : Checker}
  {t u : Ty} {cs : List Call} {c : Call}

lemma StatementCourse.warnings (h : StatementCourse b u es s cs t s') (hcs : ∀ c ∈ cs, c.Warns) :
    s'.log.warnings = s.log.warnings ++ (Call.lateOf true b cs).map Tree.unreachable := by
  induction h with
  | nil => exact (List.append_nil _).symm
  | cons hc _ ih =>
      obtain ⟨hwarns, hcs⟩ := List.forall_mem_cons.mp hcs
      rw [ih hcs, hwarns, hc, Checker.warnings_warned, Call.lateOf, Bool.true_and, List.map_append,
        List.map_append, List.append_assoc, List.append_assoc, List.append_assoc]

lemma ArgumentCourse.warnings (h : ArgumentCourse callee ps es s cs b s')
    (hcs : ∀ c ∈ cs, c.Warns) :
    s'.log.warnings = s.log.warnings ++ (cs.flatMap Call.late).map Tree.unreachable := by
  induction h with
  | nil => exact (List.append_nil _).symm
  | refused hc =>
      have hwarns := hcs _ List.mem_cons_self
      rw [Checker.warnings_complained, hwarns, hc, List.flatMap_singleton]
  | accepted hc _ _ ih =>
      obtain ⟨hwarns, hcs⟩ := List.forall_mem_cons.mp hcs
      rw [ih hcs, hwarns, hc, List.flatMap_cons, List.map_append, List.append_assoc]

/-- The warnings of a call are those of the calls made in it, and in a block each statement is
warned of before the call on it. -/
lemma Course.warnings (h : Course e s cs t s') (hcs : ∀ c ∈ cs, c.Warns) :
    s'.log.warnings
      = s.log.warnings ++ (Call.lateOf e.isBlock false cs).map Tree.unreachable := by
  have hleaf : ∀ b, s.log.warnings
      = s.log.warnings ++ (Call.lateOf b false []).map Tree.unreachable :=
    fun b => (List.append_nil _).symm
  have hone : ∀ {c : Call}, c.Warns → c.before = s → c.after.log.warnings
      = s.log.warnings ++ (Call.lateOf false false [c]).map Tree.unreachable := by
    rintro c hc rfl
    rw [hc, Call.lateOf_false, List.flatMap_singleton]
  have htwo : ∀ {a b : Call}, a.Warns → b.Warns → a.before = s →
      b.before.log.warnings = a.after.log.warnings → b.after.log.warnings
        = s.log.warnings ++ (Call.lateOf false false [a, b]).map Tree.unreachable := by
    rintro a b ha hb rfl hbetween
    rw [hb, hbetween, ha, Call.lateOf_false, List.flatMap_cons, List.flatMap_singleton,
      List.map_append, List.append_assoc]
  cases h with
  | literal => exact hleaf _
  | bound => exact hleaf _
  | unbound => exact (Checker.warnings_complained _ _).trans (hleaf _)
  | bareReturn => exact (Checker.warnings_complained _ _).trans (hleaf _)
  | loopJump => exact (Checker.warnings_complained _ _).trans (hleaf _)
  | unknownCall => exact (Checker.warnings_complained _ _).trans (hleaf _)
  | miscountedCall => exact (Checker.warnings_complained _ _).trans (hleaf _)
  | @binding _ _ _ _ _ c hc =>
      have hchild := hone (hcs c (by simp)) hc
      exact (Checker.warnings_complained _ _).trans
        ((Checker.warnings_complained _ _).trans hchild)
  | block h => exact h.warnings hcs
  | @cond _ _ _ c b hc hb =>
      exact htwo (hcs c (by simp)) (hcs b (by simp)) hc (hb ▸ Checker.warnings_complained _ _)
  | @condElse _ _ _ c b e hc hb he =>
      have hfirst := htwo (hcs c (by simp)) (hcs b (by simp)) hc
        (hb ▸ Checker.warnings_complained _ _)
      have hlast : e.Warns := hcs e (by simp)
      refine (Checker.warnings_complained _ _).trans ?_
      rw [hlast, he, hfirst]
      show _ ++ (Call.lateOf false false [c, b]).map _ ++ _
        = _ ++ (Call.lateOf false false [c, b, e]).map _
      simp [Call.lateOf_false]
  | @binary _ _ _ _ a b ha hb =>
      exact (Checker.warnings_complained _ _).trans
        (htwo (hcs a (by simp)) (hcs b (by simp)) ha (hb ▸ rfl))
  | @unary _ _ _ _ c hc =>
      exact (Checker.warnings_complained _ _).trans (hone (hcs c (by simp)) hc)
  | @valueReturn _ _ _ c hc =>
      exact (Checker.warnings_complained _ _).trans (hone (hcs c (by simp)) hc)
  | call _ _ h => exact (Call.lateOf_false cs).symm ▸ h.warnings hcs
  | @subscript _ _ _ a b ha hb =>
      exact (Checker.warnings_complained _ _).trans
        (htwo (hcs a (by simp)) (hcs b (by simp)) ha (hb ▸ rfl))

/-- **Warnings of a call.** A call warns of the statements that it comes to right after a `return`,
and of nothing else. -/
lemma Call.Sound.warnings (h : c.Sound) : c.Warns := by
  induction c using Call.innerInduction with
  | h c ih =>
      obtain ⟨-, hcourse, hinner⟩ := h
      rw [Call.Warns, Call.late_eq]
      exact hcourse.warnings fun d hd => ih d hd (hinner d hd)

/-- The checks of functions warn of what the calls on their bodies warn of. -/
lemma FunctionCourse.warnings {fs : List (Prototype × Tree)} (h : FunctionCourse fs s cs s')
    (hcs : ∀ c ∈ cs, c.Sound) :
    s'.log.warnings = s.log.warnings ++ (cs.flatMap Call.late).map Tree.unreachable := by
  induction h with
  | nil => exact (List.append_nil _).symm
  | @cons p fs s s' c cs hc _ ih =>
      obtain ⟨hsound, hcs⟩ := List.forall_mem_cons.mp hcs
      have hentered : c.before.log.warnings = s.log.warnings := hc ▸ s.warnings_complained _
      have hexited : c.after.exited.log.warnings = c.after.log.warnings := rfl
      rw [ih hcs, hexited, hsound.warnings, hentered, List.flatMap_cons, List.map_append,
        List.append_assoc]

end Warnings

end Typing

open Typing Parsing

/-- Declarations are not warned of. -/
lemma warnings_declared (p : Program) (log : Log) :
    (p.declared log).log.warnings = log.warnings := by
  have hfold : ∀ (ps : List Prototype) (s : Checker),
      (ps.foldl Checker.registered s).log.warnings = s.log.warnings := by
    intro ps
    induction ps with
    | nil => exact fun _ => rfl
    | cons q qs ih => exact fun s => (ih (s.registered q)).trans (s.warnings_complained _)
  exact hfold p.declarations _

/-- The statements of which the calls on some bodies warn are judged, in the order in which they are
warned of. -/
lemma late_sublist_allOf (calls : List Call) :
    calls.flatMap Call.late <+ (Call.allOf calls).map Call.expression := by
  rw [Call.allOf_eq, List.map_flatMap]
  refine List.Sublist.flatMap_right _ fun c _ => c.late_sublist.trans ?_
  rw [Call.all_eq]
  exact List.sublist_cons_self _ _

/-- **Warnings of a check.** A check of a parsed program adds one warning for each statement that
comes right after a `return` in a block that is judged, at the place of this statement, and no other
warning. They are in the order in which the statements are judged, each before those of the
statements within it. The checker that does not warn finds the same types and errors. -/
theorem warnings_of_typeCheck {tokens : List Token} {log : Log} {p : Program}
    (h : (parse tokens log).1 = some p) (log' : Log) :
    ∃ types out calls late, typeCheck p log' = .ok (types, out) ∧
      recordCheck p log' = .ok (calls, types, out) ∧
      out.warnings = log'.warnings ++ late.map Tree.unreachable ∧
      (∀ u, u ∈ late ↔ ∃ c ∈ Call.allOf calls, c.expression.FollowsReturn u) ∧
      late <+ (Call.allOf calls).map Call.expression ∧
      late.Pairwise (fun u v => u.id ≠ v.id ∧ ¬v.Contains u) ∧
      checkProgramWith .plain p = checkProgram p ∧
      silentCheck p log' = .ok (types, ⟨out.errors, log'.warnings⟩) := by
  obtain ⟨types, out, hrun⟩ := exists_typeCheck_of_parse h log'
  obtain ⟨calls, s, hcalls, hcourse, hsound, rfl⟩ := exists_recordCheck hrun
  obtain ⟨-, hlaid⟩ := stored_of_parse h
  have hsublist := late_sublist_allOf calls
  have hparts := sublist_parts_of_calls (map_expression_bodies hcourse) hsound
  refine ⟨types, s.log, calls, calls.flatMap Call.late, hrun, hcalls, ?_, fun u => ?_, hsublist,
    hlaid.pairwise_parts.sublist (hsublist.trans hparts), checkProgramWith_plain p,
    silentCheck_eq hrun⟩
  · rw [hcourse.warnings hsound, warnings_declared]
  · simp only [Call.allOf_eq, List.mem_flatMap]
    constructor
    · rintro ⟨b, hb, hu⟩
      obtain ⟨c, hc, hfollows⟩ := (hsound b hb).mem_late_iff.mp hu
      exact ⟨c, ⟨b, hb, hc⟩, hfollows⟩
    · rintro ⟨c, ⟨b, hb, hc⟩, hfollows⟩
      exact ⟨b, hb, (hsound b hb).mem_late_iff.mpr ⟨c, hc, hfollows⟩⟩

/-- The tokens of `func f() { return; { return; 1; } }`. -/
def lateTokens : List Token :=
  [⟨.funcWord, "func", ⟨0, 0⟩⟩, ⟨.ident, "f", ⟨0, 5⟩⟩, ⟨.leftParen, "(", ⟨0, 6⟩⟩,
    ⟨.rightParen, ")", ⟨0, 7⟩⟩, ⟨.leftBrace, "\x7b", ⟨0, 9⟩⟩, ⟨.returnWord, "return", ⟨0, 11⟩⟩,
    ⟨.semicolon, ";", ⟨0, 17⟩⟩, ⟨.leftBrace, "\x7b", ⟨0, 19⟩⟩, ⟨.returnWord, "return", ⟨0, 21⟩⟩,
    ⟨.semicolon, ";", ⟨0, 27⟩⟩, ⟨.integer, "1", ⟨0, 29⟩⟩, ⟨.semicolon, ";", ⟨0, 30⟩⟩,
    ⟨.rightBrace, "\x7d", ⟨0, 32⟩⟩, ⟨.rightBrace, "\x7d", ⟨0, 34⟩⟩]

/-- The program of `lateTokens`. -/
def lateProgram : Program where
  arena := ((((Arena.empty.add (.jump .returnWord none) ⟨0, 11⟩).add
    (.jump .returnWord none) ⟨0, 21⟩).add (.number "1" false) ⟨0, 29⟩).add
    (.block [1, 2]) ⟨0, 19⟩).add (.block [0, 3]) ⟨0, 9⟩
  functions := [⟨⟨"f", [], .void, ⟨0, 5⟩⟩, 4⟩]

/-- The inner block comes after a `return`, and so does the number in it. -/
theorem late_warnings :
    (parse lateTokens {}).1 = some lateProgram ∧
      ∃ types out calls late, typeCheck lateProgram {} = .ok (types, out) ∧
        recordCheck lateProgram {} = .ok (calls, types, out) ∧
        out.warnings = List.map Tree.unreachable late ∧
        (∀ u, u ∈ late ↔ ∃ c ∈ Call.allOf calls, c.expression.FollowsReturn u) ∧
        out.warnings.map Diagnostic.location = [⟨0, 19⟩, ⟨0, 29⟩] ∧
        silentCheck lateProgram {} = .ok (types, ⟨out.errors, []⟩) := by
  have hparse : (parse lateTokens {}).1 = some lateProgram := by decide +kernel
  have hplaces : (typeCheck lateProgram {}).map (fun r => r.2.warnings.map Diagnostic.location)
      = .ok [⟨0, 19⟩, ⟨0, 29⟩] := by
    decide +kernel
  obtain ⟨types, out, calls, late, hrun, hcalls, hwarnings, hlate, -, -, -, hsilent⟩ :=
    warnings_of_typeCheck hparse {}
  rw [hrun] at hplaces
  exact ⟨hparse, types, out, calls, late, hrun, hcalls, hwarnings, hlate, Except.ok.inj hplaces,
    hsilent⟩

end Fern
