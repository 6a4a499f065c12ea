import Fern.Proofs.Diagnostic.Joining
import Fern.Proofs.Program.Relabelling
import Fern.Proofs.Typing.Acceptance

/-!
What a run of the checker reads, and what it adds.

* `Setting`: the part of the state that a run reads: the scopes, the functions that can be called
  and the declared return type. Neither the table of types nor what was found before is in it.
* `Trace`: what a run adds: entries of the table, complaints, and places that are warned of.
* `Checker.traced`: the state after a run with a given trace, which leaves a given setting behind.
* `Traced`: a computation over relabelled expressions whose outcome depends on the setting alone.
  What it adds is relabelled along with the expressions. `Traced.bind` and its companions put such
  computations together.
* `judge_traced`, `Traced.checkFunctions`: the checker of expressions, and that of functions.
* `typeCheck_relocate`, `exists_found_of_typeCheck`: a whole check, wherever the program is placed
  and whatever was found before.
-/

namespace Fern

namespace Typing

/-! ### Complaints and verdicts at other places -/

/-- The error that a complaint is recorded as: with its own note, if it has one. -/
def Complaint.diagnostic (c : Complaint) : Diagnostic :=
  ⟨c.problem, c.location, .error, c.note.toList⟩

/-- A complaint is recorded after everything else, and its note stands on its own error. -/
lemma Complaint.record_eq_append (c : Complaint) (g : Log) :
    c.record g = g ++ ⟨[c.diagnostic], []⟩ := by
  obtain ⟨problem, l, note⟩ := c
  obtain ⟨errors, warnings⟩ := g
  cases note with
  | none => exact congrArg (Log.mk _) (List.append_nil _).symm
  | some note =>
      exact congrArg₂ Log.mk (modifyLast_append_singleton _ _ _) (List.append_nil _).symm

lemma Checker.errors_complained (c : Complaint) (s : Checker) :
    (s.complained (some c)).log.errors = s.log.errors ++ [c.diagnostic] :=
  congrArg Log.errors (c.record_eq_append s.log)

/-- The complaint at another place. -/
def Complaint.relocate (g : Location → Location) (c : Complaint) : Complaint :=
  { c with location := g c.location }

/-- The verdict with its complaint at another place. -/
def Verdict.relocate (g : Location → Location) (v : Verdict) : Verdict :=
  { v with complaint := v.complaint.map (Complaint.relocate g) }

section Places

variable (g : Location → Location) {l l' : Location} {a b : Ty}

lemma complainIf_relocate (c : Bool) (p : Problem) (note : Option String) :
    complainIf c p (g l) note = (complainIf c p l note).map (.relocate g) := by
  cases c <;> rfl

lemma annotationComplaint_relocate (name : String) (stated : Option Ty) :
    annotationComplaint name stated a (g l)
      = (annotationComplaint name stated a l).map (.relocate g) := by
  cases stated with
  | none => rfl
  | some _ => exact complainIf_relocate g _ _ _

lemma ofBinary_relocate (operator : Token.Kind) (target : String) :
    ofBinary operator target a b (g l) = (ofBinary operator target a b l).relocate g := by
  unfold ofBinary
  split_ifs
  · exact congrArg (Verdict.mk _) (complainIf_relocate g _ _ _)
  · exact congrArg (Verdict.mk _) (complainIf_relocate g _ _ _)
  · unfold ofArithmetic
    split_ifs
    · rfl
    all_goals exact congrArg (Verdict.mk _) (complainIf_relocate g _ _ _)
  · rfl

lemma ofUnary_relocate (operator : Token.Kind) :
    ofUnary operator a (g l) = (ofUnary operator a l).relocate g := by
  by_cases hinvalid : a.isInvalid = true
  · simp only [ofUnary, if_pos hinvalid]
    rfl
  · simp only [ofUnary, if_neg hinvalid]
    split
    · split <;> rfl
    · split <;> rfl
    · rfl

lemma ofReturn_relocate (declared : Option Ty) :
    ofReturn declared a (g l) = (ofReturn declared a l).relocate g := by
  cases declared with
  | none => rfl
  | some _ => exact congrArg (Verdict.mk _) (complainIf_relocate g _ _ _)

lemma ofSubscript_relocate :
    ofSubscript a b (g l) (g l') = (ofSubscript a b l l').relocate g := by
  unfold ofSubscript
  split_ifs <;> rfl

end Places

/-! ### Settings and traces -/

/-- What a run reads. -/
structure Setting where
  scopes : Scopes Ty
  signatures : Bindings Signature
  returnType : Option Ty

/-- What a run from a state reads of it. -/
def Checker.setting (s : Checker) : Setting := ⟨s.scopes, s.signatures, s.returnType⟩

/-- What a run adds: the types that it enters in the table, what it complains of, and where it warns
of code that is not reached. -/
structure Trace where
  entries : List (NodeId × Ty) := []
  complaints : List Complaint := []
  warnings : List Location := []

/-- The table with some more entries. -/
def enter (entries : List (NodeId × Ty)) (types : Array Ty) : Array Ty :=
  entries.foldl (fun types e => types.setIfInBounds e.1 e.2) types

namespace Trace

/-- What is added first, then what is added later. -/
instance : Append Trace :=
  ⟨fun τ υ => ⟨τ.entries ++ υ.entries, τ.complaints ++ υ.complaints, τ.warnings ++ υ.warnings⟩⟩

/-- What is added on a relabelled expression. -/
def relabel (r : Relabelling) (τ : Trace) : Trace :=
  ⟨τ.entries.map fun e => (r.number e.1, e.2), τ.complaints.map (Complaint.relocate r.place),
    τ.warnings.map r.place⟩

lemma relabel_append (r : Relabelling) (τ υ : Trace) :
    (τ ++ υ).relabel r = τ.relabel r ++ υ.relabel r := by
  show mk _ _ _ = mk _ _ _
  rw [mk.injEq]
  exact ⟨List.map_append, List.map_append, List.map_append⟩

/-- What a run records. -/
def found (τ : Trace) : Log :=
  ⟨τ.complaints.map Complaint.diagnostic, τ.warnings.map (.warning .unreachableCode)⟩

lemma found_append (τ υ : Trace) : (τ ++ υ).found = τ.found ++ υ.found :=
  congrArg₂ Log.mk List.map_append List.map_append

/-- On a relabelled expression the same is found at the places that it gives. -/
lemma found_relabel (r : Relabelling) (τ : Trace) :
    (τ.relabel r).found = τ.found.relocate r.place := by
  show Log.mk _ _ = Log.mk _ _
  rw [Log.mk.injEq]
  simp only [relabel, found, List.map_map]
  exact ⟨rfl, rfl⟩

end Trace

/-- The state after a run that adds `τ` and leaves the setting `E` behind. -/
def Checker.traced (s : Checker) (τ : Trace) (E : Setting) : Checker :=
  ⟨enter τ.entries s.types, E.scopes, E.signatures, E.returnType, s.log ++ τ.found⟩

lemma Checker.traced_traced (s : Checker) (τ υ : Trace) (E E' : Setting) :
    (s.traced τ E).traced υ E' = s.traced (τ ++ υ) E' := by
  simp only [traced, Trace.found_append, Log.append_assoc, mk.injEq, and_true]
  exact List.foldl_append.symm

/-- A run that adds nothing changes the setting at most. -/
lemma Checker.traced_empty (s : Checker) (E : Setting) :
    s.traced {} E = { s with
      scopes := E.scopes, signatures := E.signatures, returnType := E.returnType } :=
  congrArg (mk s.types E.scopes E.signatures E.returnType) (Log.append_empty s.log)

/-! ### Computations that depend on the setting alone -/

/-- From all states with the same setting, the computation `x` over relabelled expressions fails at
the same number, or it gives the same result, adds the same trace, with entries for numbers in `I`,
and leaves the same setting behind. -/
def Traced (I : NodeId → Prop) {α : Type} (x : Relabelling → Check α) : Prop :=
  ∀ E : Setting, (∃ i : NodeId, ∀ r s, s.setting = E → x r s = .error ⟨r.number i⟩) ∨
    ∃ (a : α) (E' : Setting) (τ : Trace), (∀ e ∈ τ.entries, I e.1) ∧
      ∀ r s, s.setting = E → x r s = .ok (a, s.traced (τ.relabel r) E')

namespace Traced

variable {I : NodeId → Prop} {α β : Type}

lemma bind {x : Relabelling → Check α} {f : Relabelling → α → Check β} (hx : Traced I x)
    (hf : ∀ a, Traced I fun r => f r a) : Traced I fun r => x r >>= f r := by
  intro E
  rcases hx E with ⟨i, hx⟩ | ⟨a, E₁, τ, hτ, hx⟩
  · refine .inl ⟨i, fun r s hs => ?_⟩
    simp only [Bind.bind, StateT.bind, Except.bind, hx r s hs]
  · have hbind : ∀ r s, s.setting = E → (x r >>= f r) s = f r a (s.traced (τ.relabel r) E₁) := by
      intro r s hs
      simp only [Bind.bind, StateT.bind, Except.bind, hx r s hs]
    rcases hf a E₁ with ⟨i, hf⟩ | ⟨b, E₂, υ, hυ, hf⟩
    · exact .inl ⟨i, fun r s hs => (hbind r s hs).trans (hf r _ rfl)⟩
    · refine .inr ⟨b, E₂, τ ++ υ, fun e he => ?_, fun r s hs => ?_⟩
      · exact (List.mem_append.mp he).elim (hτ e) (hυ e)
      · have hrun := (hbind r s hs).trans (hf r _ rfl)
        rwa [Checker.traced_traced, ← Trace.relabel_append] at hrun

/-- A computation that adds nothing and only changes the setting. -/
lemma of_setting {x : Relabelling → Check α} (result : Setting → α) (after : Setting → Setting)
    (h : ∀ r s, x r s = .ok (result s.setting, s.traced {} (after s.setting))) : Traced I x := by
  refine fun E => .inr ⟨result E, after E, {}, by simp, fun r s hs => ?_⟩
  rw [h, hs]
  rfl

lemma pure (a : α) : Traced I fun _ => Pure.pure a :=
  of_setting (fun _ => a) (fun E => E) fun r s => by rw [Checker.traced_empty]; rfl

/-- A computation that first reads the setting. -/
lemma of_reading {x : Relabelling → Check α} {y : Setting → Relabelling → Check α}
    (hx : ∀ r s, x r s = y s.setting r s) (hy : ∀ E, Traced I (y E)) : Traced I x := by
  intro E
  rcases hy E E with ⟨i, h⟩ | ⟨a, E', τ, hτ, h⟩
  · exact .inl ⟨i, fun r s hs => (hx r s).trans (hs ▸ h r s hs)⟩
  · exact .inr ⟨a, E', τ, hτ, fun r s hs => (hx r s).trans (hs ▸ h r s hs)⟩

lemma lookupName (name : String) : Traced I fun _ => lookupName name :=
  of_reading (y := fun E _ => Pure.pure (E.scopes.lookup name)) (fun _ _ => rfl) fun _ => pure _

lemma lookupSignature (name : String) : Traced I fun _ => lookupSignature name :=
  of_reading (y := fun E _ => Pure.pure (E.signatures.find? name)) (fun _ _ => rfl) fun _ => pure _

lemma declaredReturn : Traced I fun _ => declaredReturn :=
  of_reading (y := fun E _ => Pure.pure E.returnType) (fun _ _ => rfl) fun _ => pure _

lemma pushScope : Traced I fun _ => pushScope :=
  of_setting (fun _ => ()) (fun E => { E with scopes := E.scopes.push }) fun r s => by
    rw [Checker.traced_empty]; rfl

lemma popScope : Traced I fun _ => popScope :=
  of_setting (fun _ => ()) (fun E => { E with scopes := E.scopes.pop }) fun r s => by
    rw [Checker.traced_empty]; rfl

lemma bindName (name : String) (t : Ty) : Traced I fun _ => bindName name t :=
  of_setting (fun _ => ()) (fun E => { E with scopes := E.scopes.bind name t }) fun r s => by
    rw [Checker.traced_empty]; rfl

lemma setReturnType (t : Option Ty) : Traced I fun _ => setReturnType t :=
  of_setting (fun _ => ()) (fun E => { E with returnType := t }) fun r s => by
    rw [Checker.traced_empty]; rfl

/-- A computation that adds something that does not depend on the state. -/
lemma of_trace {x : Relabelling → Check α} (a : α) (τ : Trace) (hτ : ∀ e ∈ τ.entries, I e.1)
    (h : ∀ r s, x r s = .ok (a, s.traced (τ.relabel r) s.setting)) : Traced I x :=
  fun E => .inr ⟨a, E, τ, hτ, fun r s hs => hs ▸ h r s⟩

lemma complain (c : Option Complaint) :
    Traced I fun r => complain (c.map (Complaint.relocate r.place)) := by
  cases c with
  | none => exact pure ()
  | some c =>
      refine of_trace () { complaints := [c] } (by simp) fun r s => ?_
      exact congrArg (fun g => Except.ok ((), { s with log := g })) (Complaint.record_eq_append _ _)

lemma assign {id : NodeId} (hid : I id) (t : Ty) : Traced I fun r => assign (r.number id) t := by
  refine of_trace t { entries := [(id, t)] } (by simpa using hid) fun r s => ?_
  exact congrArg (fun g => Except.ok (t, { s.typed (r.number id) t with log := g }))
    (Log.append_empty _).symm

lemma settle {id : NodeId} (hid : I id) (v : Verdict) :
    Traced I fun r => settle (r.number id) (v.relocate r.place) :=
  (complain v.complaint).bind fun _ => assign hid v.type

lemma warnUnreachable (b : Bool) (l : Location) :
    Traced I fun r => warnUnreachable b (r.place l) := by
  cases b with
  | false => exact pure ()
  | true =>
      refine of_trace () { warnings := [l] } (by simp) fun r s => ?_
      exact congrArg (fun es => Except.ok ((), { s with
        log := ⟨es, s.log.warnings ++ [Diagnostic.warning .unreachableCode (r.place l)]⟩ }))
        (List.append_nil _).symm

lemma declare (name : String) (t : Ty) (l : Location) :
    Traced I fun r => declare name t (r.place l) := by
  refine of_reading (y := fun E r => do
    Typing.complain (complainIf (E.scopes.localLookup name).isSome (.duplicateVariable name)
      (r.place l) none)
    Typing.bindName name t) (fun _ _ => rfl) fun E => ?_
  simp only [complainIf_relocate]
  exact (complain _).bind fun _ => bindName name t

end Traced

/-! ### Expressions -/

namespace Traced

variable {I : NodeId → Prop} {β : Type} {id : NodeId} {l : Location}

/-- A subexpression and what comes after it, which may rely on its place: the place of what is
missing is never asked for, as nothing comes after it. -/
lemma child {e : Tree} {f : Relabelling → Ty → Check β}
    (he : Traced I fun r => judge (e.relabel r))
    (hf : (∀ r, (e.relabel r).location = r.place e.location) → ∀ t, Traced I fun r => f r t) :
    Traced I fun r => judge (e.relabel r) >>= f r := by
  cases e with
  | missing id => exact fun E => .inl ⟨id, fun _ _ _ => rfl⟩
  | node id l shape => exact he.bind (hf fun r => rfl)

lemma statements {es : List Tree} (h : ∀ e ∈ es, Traced I fun r => judge (e.relabel r)) :
    ∀ b u, Traced I fun r => judgeStatements b u (es.map (Tree.relabel r)) := by
  induction es with
  | nil => exact fun b u => by simpa only [List.map_nil, judgeStatements] using pure u
  | cons e es ih =>
      intro b u
      have hrest := ih fun x hx => h x (List.mem_cons_of_mem _ hx)
      simp only [List.map_cons, judgeStatements, Tree.isReturn_relabel]
      cases e with
      | missing id =>
          refine fun E => .inl ⟨id, fun r s hs => ?_⟩
          cases b <;> rfl
      | node id l shape =>
          have hwarn : ∀ r, ((Tree.node id l shape).relabel r).location = r.place l := fun r => rfl
          simp only [hwarn]
          refine (warnUnreachable b l).bind fun _ => ?_
          exact (h _ List.mem_cons_self).bind fun t => hrest _ t

lemma arguments {callee : String} {es : List Tree}
    (h : ∀ e ∈ es, Traced I fun r => judge (e.relabel r)) :
    ∀ ps, Traced I fun r => judgeArguments callee ps (es.map (Tree.relabel r)) := by
  induction es with
  | nil =>
      intro ps
      have hnil : judgeArguments callee ps [] = Pure.pure true := by cases ps <;> rfl
      simpa only [List.map_nil, hnil] using pure true
  | cons e es ih =>
      intro ps
      cases ps with
      | nil => exact pure true
      | cons p ps =>
          simp only [List.map_cons, judgeArguments]
          refine child (h e List.mem_cons_self) fun hplace t => ?_
          simp only [hplace, argumentComplaint, complainIf_relocate]
          refine (complain _).bind fun _ => ?_
          split
          · exact pure false
          · exact ih (fun x hx => h x (List.mem_cons_of_mem _ hx)) ps

lemma call {callee : String} {arguments : List Tree} (hid : I id)
    (h : ∀ e ∈ arguments, Traced I fun r => judge (e.relabel r)) :
    Traced I fun r => judge ((Tree.node id l (.call callee arguments)).relabel r) := by
  simp only [Tree.relabel_node, Shape.map, judge, List.length_map]
  refine (lookupSignature callee).bind fun o => ?_
  cases o with
  | none => exact settle hid (.refuse _ l none)
  | some g =>
      by_cases hcount : g.parameters.length ≠ arguments.length
      · simp only [if_pos hcount]
        exact settle hid (.refuse _ l none)
      · simp only [if_neg hcount]
        exact (Traced.arguments h g.parameters).bind fun accepted => assign hid _

end Traced

/-- **Runs on relabelled expressions.** What a run on an expression gives, adds and leaves behind
depends on the setting alone, and on relabelled expressions it is relabelled. -/
lemma judge_traced {I : NodeId → Prop} (e : Tree) (hI : ∀ u, e.Contains u → I u.id) :
    Traced I fun r => judge (e.relabel r) := by
  induction e using Tree.childInduction with
  | missing id => exact fun E => .inl ⟨id, fun _ _ _ => rfl⟩
  | node id l shape ih =>
      have hid : I id := hI _ (.self _)
      replace ih : ∀ c ∈ shape.children, Traced I fun r => judge (c.relabel r) :=
        fun c hc => ih c hc fun u hu => hI u (.child hc hu)
      cases shape with
      | number => exact .assign hid _
      | boolean => exact .assign hid _
      | string => exact .assign hid _
      | char => exact .assign hid _
      | var name =>
          refine (Traced.lookupName name).bind fun o => ?_
          cases o with
          | some t => exact .assign hid t
          | none => exact .settle hid (.refuse _ l none)
      | binding name stated value =>
          simp only [Tree.relabel_node, Shape.map, judge, annotationComplaint_relocate]
          refine (ih value (by simp [Shape.children])).bind fun t => ?_
          refine (Traced.complain _).bind fun _ => ?_
          exact (Traced.declare name t l).bind fun _ => .assign hid t
      | block statements =>
          simp only [Tree.relabel_node, Shape.map, judge]
          refine Traced.pushScope.bind fun _ => ?_
          refine (Traced.statements ih _ _).bind fun t => ?_
          exact Traced.popScope.bind fun _ => .assign hid t
      | cond condition thenBlock elseBlock =>
          have hcondition := ih condition (by simp [Shape.children])
          have hthen := ih thenBlock (by simp [Shape.children])
          cases elseBlock with
          | none =>
              simp only [Tree.relabel_node, Shape.map, Option.map_none, judge]
              refine hcondition.child fun hplace c => ?_
              simp only [hplace, conditionComplaint, complainIf_relocate]
              refine (Traced.complain _).bind fun _ => ?_
              exact hthen.bind fun t => .assign hid t
          | some elseBlock =>
              simp only [Tree.relabel_node, Shape.map, Option.map_some, judge]
              refine hcondition.child fun hplace c => ?_
              simp only [hplace, conditionComplaint, armsComplaint, complainIf_relocate]
              refine (Traced.complain _).bind fun _ => hthen.bind fun t => ?_
              refine (ih elseBlock (by simp [Shape.children])).bind fun u => ?_
              exact (Traced.complain _).bind fun _ => .assign hid t
      | binary operator left right =>
          simp only [Tree.relabel_node, Shape.map, judge, Tree.name?_relabel, ofBinary_relocate]
          refine (ih left (by simp [Shape.children])).bind fun a => ?_
          exact (ih right (by simp [Shape.children])).bind fun b => .settle hid _
      | unary operator operand =>
          simp only [Tree.relabel_node, Shape.map, judge, ofUnary_relocate]
          exact (ih operand (by simp [Shape.children])).bind fun t => .settle hid _
      | jump operator value =>
          by_cases hop : operator = .returnWord
          · subst hop
            cases value with
            | none =>
                simp only [Tree.relabel_node, Shape.map, Option.map_none, judge, ofReturn_relocate]
                exact Traced.declaredReturn.bind fun o => .settle hid _
            | some value =>
                simp only [Tree.relabel_node, Shape.map, Option.map_some, judge, ofReturn_relocate]
                refine (ih value (by simp [Shape.children])).bind fun t => ?_
                exact Traced.declaredReturn.bind fun o => .settle hid _
          · have hloop : ∀ r : Relabelling,
                judge ((Tree.node id l (.jump operator value)).relabel r)
                  = settle (r.number id)
                      ⟨.void, some ⟨.loopControlOutsideLoop, r.place l, none⟩⟩ := by
              intro r
              rw [Tree.relabel_node, Shape.map, judge]
              · exact fun h => absurd h hop
              · exact fun _ h => absurd h hop
            simp only [hloop]
            exact .settle hid ⟨.void, some ⟨.loopControlOutsideLoop, l, none⟩⟩
      | call => exact .call hid ih
      | subscript operand index =>
          simp only [Tree.relabel_node, Shape.map, judge]
          refine (ih operand (by simp [Shape.children])).bind fun a => ?_
          refine (ih index (by simp [Shape.children])).child fun hplace b => ?_
          simp only [hplace, ofSubscript_relocate]
          exact .settle hid _

/-! ### Functions -/

/-- A signature does not tell where a function is. -/
lemma Signature.ofPrototype_relocate (g : Location → Location) (p : Prototype) :
    Signature.ofPrototype (p.relocate g) = .ofPrototype p := by
  simp only [ofPrototype, Prototype.relocate, List.map_map]
  rfl

namespace Traced

variable {I : NodeId → Prop}

lemma register (p : Prototype) : Traced I fun r => register (p.relocate r.place) := by
  refine of_reading (y := fun E r => do
    Typing.complain (complainIf (E.signatures.find? p.name).isSome (.duplicateFunction p.name)
      (r.place p.location) none)
    modify fun s => { s with signatures := s.signatures.set p.name (.ofPrototype p) })
    (fun r s => ?_) fun E => ?_
  · rw [← Signature.ofPrototype_relocate r.place p]
    rfl
  · simp only [complainIf_relocate]
    refine (complain _).bind fun _ => ?_
    refine of_setting (fun _ => ())
      (fun E => { E with signatures := E.signatures.set p.name (.ofPrototype p) }) fun r s => ?_
    rw [Checker.traced_empty]
    rfl

lemma bindParameters (ps : List Parameter) :
    Traced I fun r => bindParameters (ps.map (Parameter.relocate r.place)) := by
  induction ps with
  | nil => exact pure ()
  | cons p ps ih => exact (bindName p.name p.type).bind fun _ => ih

/-- The whole of what the checking of a function adds. -/
lemma checkFunction (p : Prototype) {body : Tree} (hI : ∀ u, body.Contains u → I u.id) :
    Traced I fun r => checkFunction (p.relocate r.place) (body.relabel r) :=
  (register p).bind fun _ => pushScope.bind fun _ => (bindParameters p.parameters).bind fun _ =>
    (setReturnType (some p.returnType)).bind fun _ => (judge_traced body hI).bind fun _ =>
      (setReturnType none).bind fun _ => popScope

lemma checkDeclarations (ps : List Prototype) :
    Traced I fun r => checkDeclarations (ps.map (Prototype.relocate r.place)) := by
  induction ps with
  | nil => exact pure ()
  | cons p ps ih => exact (register p).bind fun _ => ih

lemma checkFunctions (fs : List (Prototype × Tree)) (hI : ∀ f ∈ fs, ∀ u, f.2.Contains u → I u.id) :
    Traced I fun r => checkFunctions
      (fs.map fun f => (f.1.relocate r.place, f.2.relabel r)) := by
  induction fs with
  | nil => exact pure ()
  | cons f fs ih =>
      refine (checkFunction f.1 (hI f List.mem_cons_self)).bind fun _ => ?_
      exact ih fun g hg => hI g (List.mem_cons_of_mem _ hg)

end Traced

end Typing

open Typing

/-! ### Programs -/

lemma Program.relocate_same (p : Program) : p.relocate (fun l => l) = p := by
  obtain ⟨⟨nodes⟩, declarations, functions⟩ := p
  have hnodes : nodes.map (Node.relocate fun l => l) = nodes := Array.map_id' _
  have hdeclarations : declarations.map (Prototype.relocate fun l => l) = declarations :=
    (List.map_congr_left fun q _ => q.relocate_same).trans (List.map_id' _)
  have hfunctions : functions.map (Function.relocate fun l => l) = functions := by
    refine (List.map_congr_left fun f _ => ?_).trans (List.map_id' _)
    exact congrArg (Function.mk · f.body) f.prototype.relocate_same
  simp only [relocate, Arena.relocate, hnodes, hdeclarations, hfunctions]

lemma Program.bodies_relocate (g : Location → Location) (p : Program) :
    (p.relocate g).bodies
      = p.bodies.map fun f => (f.1.relocate g, f.2.relabel (.ofPlaces g)) := by
  simp only [bodies, relocate, List.map_map]
  exact List.map_congr_left fun f _ => congrArg (Prod.mk _) (p.body_relocate g f)

/-- The checking of a program is a computation over its relabelled bodies. -/
lemma Typing.exists_traced_checkProgram (p : Program) :
    ∃ x, Traced Any x ∧ ∀ g, checkProgram (p.relocate g) = x (.ofPlaces g) := by
  refine ⟨fun r => checkDeclarations (p.declarations.map (Prototype.relocate r.place)) >>= fun _ =>
    checkFunctions (p.bodies.map fun f => (f.1.relocate r.place, f.2.relabel r)), ?_, fun g => ?_⟩
  · exact (Traced.checkDeclarations p.declarations).bind fun _ =>
      .checkFunctions p.bodies fun _ _ _ _ => trivial
  · refine Eq.trans ?_ (congrArg (fun fs => checkDeclarations _ >>= fun _ => checkFunctions fs)
      (p.bodies_relocate g))
    rfl

/-- **Runs on programs at other places.** Wherever a program is placed and whatever was found
before, the check fails at the same number, or it finds the same types, and the same errors and
warnings at the places that they belong to. No warning has a note. -/
lemma typeCheck_relocate (p : Program) :
    (∃ i, ∀ g log, typeCheck (p.relocate g) log = .error ⟨i⟩) ∨
      ∃ (types : Array Ty) (found : Log), (∀ w ∈ found.warnings, w.notes = []) ∧
        ∀ g log, typeCheck (p.relocate g) log = .ok (types, log ++ found.relocate g) := by
  obtain ⟨x, hx, hrun⟩ := exists_traced_checkProgram p
  rcases hx (Checker.start 0 .empty).setting with ⟨i, h⟩ | ⟨_, E, τ, -, h⟩
  · refine .inl ⟨i, fun g log => ?_⟩
    have hfail := h (.ofPlaces g) (.start (p.relocate g).arena.size log) rfl
    simp only [typeCheck, StateT.run, hrun, hfail]
    rfl
  · have hwarnings : ∀ w ∈ τ.found.warnings, w.notes = [] := by
      intro w hw
      obtain ⟨l, -, rfl⟩ := List.mem_map.mp hw
      rfl
    refine .inr ⟨enter τ.entries (Array.replicate p.arena.size .invalid), τ.found, hwarnings,
      fun g log => ?_⟩
    have hsize : (p.relocate g).arena.size = p.arena.size := p.arena.size_relocate g
    have hentries : (τ.relabel (.ofPlaces g)).entries = τ.entries := List.map_id' _
    have hdone := h (.ofPlaces g) (.start p.arena.size log) rfl
    simp only [typeCheck, StateT.run, hrun, hsize, hdone, Checker.traced, Trace.found_relabel,
      hentries]
    rfl

/-- What a check finds does not depend on what was found before. At other places the same is found
there. -/
lemma exists_found_of_typeCheck {p : Program} {log out : Log} {types : Array Ty}
    (h : typeCheck p log = .ok (types, out)) :
    ∃ found : Log, out = log ++ found ∧ (∀ w ∈ found.warnings, w.notes = []) ∧
      ∀ g log', typeCheck (p.relocate g) log' = .ok (types, log' ++ found.relocate g) := by
  rcases typeCheck_relocate p with ⟨i, hfail⟩ | ⟨types', found, hwarnings, hdone⟩
  · have hsame := hfail (fun l => l) log
    rw [p.relocate_same, h] at hsame
    cases hsame
  · have hsame := hdone (fun l => l) log
    rw [p.relocate_same, found.relocate_same, h] at hsame
    cases hsame
    exact ⟨found, rfl, hwarnings, hdone⟩

end Fern
