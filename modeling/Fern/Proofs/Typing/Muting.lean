import Fern.Proofs.Typing.Hooks
import Fern.Proofs.Typing.Trace

/-!
The checker that does not warn.

* `Hooks.silent`: no statement is warned of.
* `Mutes`: a computation goes the way of another one, whatever was warned of, and does not warn.
* `judge_mutes`, `Mutes.checkProgram`: the checker that does not warn goes the way of the checker.
* `silentCheck_eq`: **a check that does not warn finds the same types and errors**.
-/

namespace Fern

namespace Typing

/-- Nothing is done around an expression, and no statement is warned of. -/
def Hooks.silent : Hooks Check where
  around _ x := x
  before _ _ := pure ()

/-- The state with other warnings. -/
def Checker.withWarnings (ws : List Diagnostic) (s : Checker) : Checker :=
  { s with log := { s.log with warnings := ws } }

/-- Whatever was warned of before, `y` goes the way of `x` and leaves the warnings `ws` as they
are. -/
def Mutes (ws : List Diagnostic) {α : Type} (x y : Check α) : Prop :=
  ∀ s, y (s.withWarnings ws) = (x s).map fun r => (r.1, r.2.withWarnings ws)

namespace Mutes

variable {ws : List Diagnostic} {α β : Type} {id : NodeId} {l : Location}

lemma bind {x y : Check α} {f g : α → Check β} (h : Mutes ws x y) (hf : ∀ a, Mutes ws (f a) (g a)) :
    Mutes ws (x >>= f) (y >>= g) := by
  intro s
  simp only [Bind.bind, StateT.bind, Except.bind, h s]
  cases x s with
  | error e => rfl
  | ok r => exact hf r.1 r.2

lemma pure (a : α) : Mutes ws (Pure.pure a : Check α) (Pure.pure a) := fun _ => rfl

lemma complain (k : Option Complaint) : Mutes ws (complain k) (complain k) := by
  cases k with
  | none => exact pure ()
  | some k =>
      intro s
      have hrecord : k.record (s.withWarnings ws).log = { k.record s.log with warnings := ws } := by
        rw [k.record_eq_append, k.record_eq_append]
        exact congrArg (Log.mk _) (List.append_nil ws)
      exact congrArg (fun g => Except.ok ((), { s with log := g })) hrecord

lemma assign (id : NodeId) (t : Ty) : Mutes ws (assign id t) (assign id t) := fun _ => rfl

lemma settle (id : NodeId) (v : Verdict) : Mutes ws (settle id v) (settle id v) :=
  (complain v.complaint).bind fun _ => assign id v.type

lemma pushScope : Mutes ws pushScope pushScope := fun _ => rfl

lemma popScope : Mutes ws popScope popScope := fun _ => rfl

lemma bindName (name : String) (t : Ty) : Mutes ws (bindName name t) (bindName name t) :=
  fun _ => rfl

lemma setReturnType (t : Option Ty) : Mutes ws (setReturnType t) (setReturnType t) := fun _ => rfl

lemma lookupName (name : String) : Mutes ws (lookupName name) (lookupName name) := fun _ => rfl

lemma lookupSignature (name : String) :
    Mutes ws (lookupSignature name) (lookupSignature name) := fun _ => rfl

lemma declaredReturn : Mutes ws declaredReturn declaredReturn := fun _ => rfl

/-- What is warned of makes no difference. -/
lemma warnUnreachable (b : Bool) (l : Location) :
    Mutes ws (warnUnreachable b l) (Pure.pure ()) := by
  cases b <;> exact fun _ => rfl

/-- A computation that first reads whether a name is taken. -/
lemma of_reading {x : Check α} {y : Checker → Check α} (hx : ∀ s, x s = y s s)
    (hy : ∀ s, y (s.withWarnings ws) = y s) (h : ∀ s, Mutes ws (y s) (y s)) : Mutes ws x x := by
  intro s
  rw [hx, hx, hy]
  exact h s s

lemma declare (name : String) (t : Ty) (l : Location) :
    Mutes ws (declare name t l) (declare name t l) := by
  refine of_reading (y := fun s => do
    Typing.complain (s.duplicate name l)
    Typing.bindName name t) (fun _ => rfl) (fun _ => rfl) fun s => ?_
  exact (complain _).bind fun _ => bindName name t

lemma register (p : Prototype) : Mutes ws (register p) (register p) := by
  refine of_reading (y := fun s => do
    Typing.complain (s.taken p)
    modify fun s => { s with signatures := s.signatures.set p.name (.ofPrototype p) })
    (fun _ => rfl) (fun _ => rfl) fun s => ?_
  exact (complain _).bind fun _ => fun _ => rfl

lemma statements {es : List Tree} (h : ∀ e ∈ es, Mutes ws (judge e) (judgeWith .silent e)) :
    ∀ b u, Mutes ws (judgeStatements b u es) (judgeStatementsWith .silent b u es) := by
  induction es with
  | nil =>
      intro b u
      simp only [judgeStatements, judgeStatementsWith]
      exact pure u
  | cons e es ih =>
      intro b u
      simp only [judgeStatements, judgeStatementsWith]
      refine (warnUnreachable b e.location).bind fun _ => ?_
      refine (h e List.mem_cons_self).bind fun t => ?_
      exact ih (fun c hc => h c (List.mem_cons_of_mem _ hc)) _ t

lemma arguments {callee : String} {es : List Tree}
    (h : ∀ e ∈ es, Mutes ws (judge e) (judgeWith .silent e)) :
    ∀ ps, Mutes ws (judgeArguments callee ps es) (judgeArgumentsWith .silent callee ps es) := by
  induction es with
  | nil =>
      intro ps
      cases ps <;> exact pure true
  | cons e es ih =>
      intro ps
      cases ps with
      | nil => exact pure true
      | cons p ps =>
          simp only [judgeArguments, judgeArgumentsWith]
          refine (h e List.mem_cons_self).bind fun t => (complain _).bind fun _ => ?_
          split
          · exact pure false
          · exact ih (fun c hc => h c (List.mem_cons_of_mem _ hc)) ps

lemma call {callee : String} {arguments : List Tree}
    (h : ∀ e ∈ arguments, Mutes ws (judge e) (judgeWith .silent e)) :
    Mutes ws (judge (.node id l (.call callee arguments)))
      (judgeWith .silent (.node id l (.call callee arguments))) := by
  simp only [judge, judgeWith]
  refine (lookupSignature callee).bind fun o => ?_
  cases o with
  | none => exact settle id _
  | some g =>
      by_cases hcount : g.parameters.length ≠ arguments.length
      · simp only [if_pos hcount]
        exact settle id _
      · simp only [if_neg hcount]
        exact (Mutes.arguments h g.parameters).bind fun accepted => assign id _

end Mutes

/-- **No effect.** The checker that does not warn judges an expression as the checker does. -/
lemma judge_mutes (ws : List Diagnostic) (e : Tree) :
    Mutes ws (judge e) (judgeWith .silent e) := by
  induction e using Tree.childInduction with
  | missing id => exact fun _ => rfl
  | node id l shape ih =>
      cases shape with
      | number => exact .assign id _
      | boolean => exact .assign id _
      | string => exact .assign id _
      | char => exact .assign id _
      | var name =>
          refine (Mutes.lookupName name).bind fun o => ?_
          cases o with
          | some t => exact .assign id t
          | none => exact .settle id _
      | binding name stated value =>
          simp only [judge, judgeWith]
          refine (ih value (by simp [Shape.children])).bind fun t => ?_
          refine (Mutes.complain _).bind fun _ => ?_
          exact (Mutes.declare name t l).bind fun _ => .assign id t
      | block statements =>
          simp only [judge, judgeWith]
          refine Mutes.pushScope.bind fun _ => ?_
          refine (Mutes.statements ih _ _).bind fun t => ?_
          exact Mutes.popScope.bind fun _ => .assign id t
      | cond condition thenBlock elseBlock =>
          have hcondition := ih condition (by simp [Shape.children])
          have hthen := ih thenBlock (by simp [Shape.children])
          cases elseBlock with
          | none =>
              simp only [judge, judgeWith]
              refine hcondition.bind fun c => (Mutes.complain _).bind fun _ => ?_
              exact hthen.bind fun t => .assign id t
          | some elseBlock =>
              simp only [judge, judgeWith]
              refine hcondition.bind fun c => (Mutes.complain _).bind fun _ => ?_
              refine hthen.bind fun t => ?_
              refine (ih elseBlock (by simp [Shape.children])).bind fun u => ?_
              exact (Mutes.complain _).bind fun _ => .assign id t
      | binary operator left right =>
          simp only [judge, judgeWith]
          refine (ih left (by simp [Shape.children])).bind fun a => ?_
          exact (ih right (by simp [Shape.children])).bind fun b => .settle id _
      | unary operator operand =>
          simp only [judge, judgeWith]
          exact (ih operand (by simp [Shape.children])).bind fun t => .settle id _
      | jump operator value =>
          by_cases hop : operator = .returnWord
          · subst hop
            cases value with
            | none =>
                simp only [judge, judgeWith]
                exact Mutes.declaredReturn.bind fun o => .settle id _
            | some value =>
                simp only [judge, judgeWith]
                refine (ih value (by simp [Shape.children])).bind fun t => ?_
                exact Mutes.declaredReturn.bind fun o => .settle id _
          · rw [judge, judgeWith]
            · exact .settle id _
            all_goals simp_all
      | call => exact .call ih
      | subscript operand index =>
          simp only [judge, judgeWith]
          refine (ih operand (by simp [Shape.children])).bind fun a => ?_
          exact (ih index (by simp [Shape.children])).bind fun b => .settle id _

namespace Mutes

variable {ws : List Diagnostic}

lemma bindParameters (ps : List Parameter) :
    Mutes ws (bindParameters ps) (bindParameters ps) := by
  induction ps with
  | nil => exact pure ()
  | cons p ps ih => exact (bindName p.name p.type).bind fun _ => ih

lemma checkFunction (p : Prototype) (body : Tree) :
    Mutes ws (checkFunction p body) (checkFunctionWith .silent p body) := by
  refine (register p).bind fun _ => pushScope.bind fun _ => ?_
  refine (bindParameters p.parameters).bind fun _ => (setReturnType _).bind fun _ => ?_
  exact (judge_mutes ws body).bind fun _ => (setReturnType none).bind fun _ => popScope

lemma checkFunctions (fs : List (Prototype × Tree)) :
    Mutes ws (checkFunctions fs) (checkFunctionsWith .silent fs) := by
  induction fs with
  | nil => exact pure ()
  | cons f fs ih => exact (checkFunction f.1 f.2).bind fun _ => ih

lemma checkDeclarations (ps : List Prototype) :
    Mutes ws (checkDeclarations ps) (checkDeclarations ps) := by
  induction ps with
  | nil => exact pure ()
  | cons p ps ih => exact (register p).bind fun _ => ih

lemma checkProgram (p : Program) : Mutes ws (checkProgram p) (checkProgramWith .silent p) :=
  (checkDeclarations p.declarations).bind fun _ => checkFunctions p.bodies

end Mutes

end Typing

open Typing

/-- What a check finds that does not warn. -/
def silentCheck (p : Program) (log : Log) : Except MissingNode (Array Ty × Log) :=
  match (checkProgramWith .silent p).run (.start p.arena.size log) with
  | .ok (_, s) => .ok (s.types, s.log)
  | .error e => .error e

/-- A check that does not warn finds the same types and errors. -/
lemma silentCheck_eq {p : Program} {log out : Log} {types : Array Ty}
    (h : typeCheck p log = .ok (types, out)) :
    silentCheck p log = .ok (types, ⟨out.errors, log.warnings⟩) := by
  obtain ⟨s, hrun, rfl, rfl⟩ := typeCheck_eq_ok.mp h
  have hmutes : Mutes log.warnings (checkProgram p) (checkProgramWith .silent p) :=
    .checkProgram p
  have hsilent := hmutes (.start p.arena.size log)
  rw [hrun] at hsilent
  have hstart : (Checker.start p.arena.size log).withWarnings log.warnings
      = .start p.arena.size log := rfl
  rw [silentCheck, StateT.run, ← hstart, hsilent]
  rfl

end Fern
