import Fern.Proofs.Typing.Completeness

/-!
The checker accepts exactly the well-typed programs.

* `Checker.registered`, `Checker.entered`, `Checker.exited`: what the registration of a prototype
  and the two ends of a function make of the state.
* `Knows`: between two functions no scope is open, and the functions registered so far are those
  that can be called.
* `Admitted`: functions that can be added one after the other to the known ones.
* `checkFunction_quiet_iff`, `checkFunctions_quiet_iff`, `accepted_iff_wellTyped`: a function, a
  list of them and a program are checked without an error exactly if the judgement admits them.
-/

namespace Fern

namespace Typing

/-! ### Registration -/

namespace Checker

/-- The complaint about a function name that is taken. -/
def taken (p : Prototype) (s : Checker) : Option Complaint :=
  complainIf (s.signatures.find? p.name).isSome (.duplicateFunction p.name) p.location none

/-- The state in which a prototype has been registered. -/
def registered (s : Checker) (p : Prototype) : Checker :=
  { s.complained (s.taken p) with signatures := s.signatures.set p.name (.ofPrototype p) }

/-- The state at the beginning of the body of a function. -/
def entered (p : Prototype) (s : Checker) : Checker :=
  { s.registered p with
    scopes := parameterScope p.parameters :: s.scopes
    returnType := some p.returnType }

/-- The state after the body of a function. -/
def exited (s : Checker) : Checker := { s with scopes := s.scopes.pop, returnType := none }

end Checker

section Steps

variable {s s' : Checker} {p : Prototype} {x : Unit}

lemma register_eq_ok : register p s = .ok (x, s') ↔ s' = s.registered p := by
  simp only [register, bind_eq_ok, lookupSignature_eq_ok, complain_eq_ok, modify_eq_ok, and_assoc,
    exists_and_left, exists_eq_left, exists_const]
  rfl

lemma checkDeclarations_eq_ok {ps : List Prototype} :
    checkDeclarations ps s = .ok (x, s') ↔ s' = ps.foldl Checker.registered s := by
  induction ps generalizing s with
  | nil =>
      rw [checkDeclarations, pure_eq_ok]
      exact and_iff_right rfl
  | cons p ps ih =>
      simp only [checkDeclarations, bind_eq_ok, register_eq_ok, exists_eq_left, exists_const, ih,
        List.foldl_cons]

/-- Parameters are bound one after the other in the innermost scope. -/
lemma bindParameters_eq_ok {ps : List Parameter} {bs : Bindings Ty} {Γ : Scopes Ty}
    (h : s.scopes = bs :: Γ) :
    bindParameters ps s = .ok (x, s') ↔
      s' = { s with scopes := ps.foldl (fun bs p => bs.set p.name p.type) bs :: Γ } := by
  induction ps generalizing s bs with
  | nil =>
      rw [bindParameters, pure_eq_ok, List.foldl_nil, ← h]
      exact and_iff_right rfl
  | cons p ps ih =>
      have hbound : (s.bound p.name p.type).scopes = bs.set p.name p.type :: Γ := by
        rw [Checker.bound, h]
        rfl
      simp only [bindParameters, bindName, bind_eq_ok, modify_eq_ok, exists_eq_left, exists_const,
        List.foldl_cons]
      exact ih hbound

lemma checkFunction_eq_ok {body : Tree} :
    checkFunction p body s = .ok (x, s') ↔
      ∃ t s₁, judge body (s.entered p) = .ok (t, s₁) ∧ s' = s₁.exited := by
  have hopened : (s.registered p).opened.scopes = [] :: s.scopes := rfl
  simp only [checkFunction, bind_eq_ok, register_eq_ok, pushScope_eq_ok, setReturnType,
    modify_eq_ok, popScope_eq_ok, bindParameters_eq_ok hopened, exists_eq_left, exists_const]
  rfl

end Steps

/-! ### The functions known so far -/

lemma callableAmong_append (ps : List Prototype) (p : Prototype) (name : String) :
    callableAmong (ps ++ [p]) name = (callableAmong ps name).or
      (if p.name = name then some (.ofPrototype p) else none) := by
  rw [callableAmong, callableAmong, List.find?_append]
  cases ps.find? (·.name = name) with
  | some q => rfl
  | none =>
      by_cases hn : p.name = name
      · simp [hn]
      · simp [hn]

lemma callableAmong_eq_none {ps : List Prototype} {name : String} :
    callableAmong ps name = none ↔ name ∉ ps.map Prototype.name := by
  simp [callableAmong]

lemma nodup_names_append {ps : List Prototype} {p : Prototype} :
    ((ps ++ [p]).map Prototype.name).Nodup ↔
      p.name ∉ ps.map Prototype.name ∧ (ps.map Prototype.name).Nodup := by
  rw [List.map_append, List.map_singleton, ← List.concat_eq_append, List.nodup_concat]

/-- No scope is open, and what can be called are the functions `ps`. -/
structure Knows (ps : List Prototype) (s : Checker) : Prop where
  signatures : ∀ name, s.signatures.find? name = callableAmong ps name
  scopes : s.scopes = []

/-- The types that a prototype states are those of values. -/
def ValidPrototype (p : Prototype) : Prop :=
  p.returnType.isInvalid = false ∧ ∀ a ∈ p.parameters, a.type.isInvalid = false

lemma callableAmong_valid {ps : List Prototype} (h : ∀ p ∈ ps, ValidPrototype p) :
    ∀ name g, callableAmong ps name = some g → g.returnType.isInvalid = false := by
  intro name g hg
  obtain ⟨p, hp, rfl⟩ := Option.map_eq_some_iff.mp hg
  exact (h p (List.mem_of_find?_eq_some hp)).1

lemma parameterScope_valid {ps : List Parameter} (h : ∀ a ∈ ps, a.type.isInvalid = false) :
    ValidScopes [parameterScope ps] := by
  have key : ∀ bs : Bindings Ty, ValidScopes [bs] →
      ValidScopes [ps.foldl (fun bs p => bs.set p.name p.type) bs] := by
    induction ps with
    | nil => exact fun _ hbs => hbs
    | cons p ps ih =>
        intro bs hbs
        exact ih (fun a ha => h a (List.mem_cons_of_mem _ ha)) _
          (hbs.bind (h p List.mem_cons_self))
  refine key [] fun bs hbs q hq => ?_
  rw [List.mem_singleton.mp hbs] at hq
  cases hq

namespace Knows

variable {ps : List Prototype} {s : Checker}

/-- Registration is free of errors exactly if the name is new. -/
lemma registered_errors_iff (h : Knows ps s) (p : Prototype) :
    (s.registered p).log.errors = s.log.errors ↔ p.name ∉ ps.map Prototype.name := by
  rw [← callableAmong_eq_none, ← h.signatures]
  refine complained_errors_iff.trans (complainIf_eq_none.trans ?_)
  simp

/-- A function with a new name is known once it is registered. -/
lemma registered (h : Knows ps s) {p : Prototype} (hp : p.name ∉ ps.map Prototype.name) :
    Knows (ps ++ [p]) (s.registered p) where
  signatures name := by
    rw [callableAmong_append, ← h.signatures]
    refine (Bindings.find?_set _ _ _ _).trans ?_
    by_cases hn : p.name = name
    · subst hn
      have hnone := callableAmong_eq_none.mpr hp
      rw [← h.signatures] at hnone
      simp [hnone]
    · simp [hn]
  scopes := h.scopes

lemma entered (h : Knows ps s) {p : Prototype} (hvalid : ValidPrototype p)
    (hp : p.name ∉ ps.map Prototype.name) :
    Ready (callableAmong (ps ++ [p])) p.returnType (s.entered p) := by
  refine ⟨(h.registered hp).signatures, rfl, ?_⟩
  rw [Checker.entered, h.scopes]
  exact parameterScope_valid hvalid.2

/-- After a function is checked, it is known, and no scope is open. -/
lemma exited (h : Knows ps s) {p : Prototype} (hp : p.name ∉ ps.map Prototype.name)
    {s₁ : Checker} (hkept : Kept (s.entered p) s₁) : Knows (ps ++ [p]) s₁.exited where
  signatures name := by
    rw [Checker.exited, hkept.signatures]
    exact (h.registered hp).signatures name
  scopes := hkept.outer.trans h.scopes

end Knows

/-! ### Functions and programs -/

/-- A function is checked without an error exactly if its name is new and its body has a type. -/
lemma checkFunction_quiet_iff {ps : List Prototype} {s : Checker} (h : Knows ps s)
    {p : Prototype} (hvalid : ∀ q ∈ ps ++ [p], ValidPrototype q) (body : Tree) :
    (∃ s', checkFunction p body s = .ok ((), s') ∧ s'.log.errors = s.log.errors) ↔
      p.name ∉ ps.map Prototype.name ∧ BodyTyped (ps ++ [p]) p body := by
  have hresult := callableAmong_valid hvalid
  have hinitial : (s.entered p).scopes = [parameterScope p.parameters] := by
    rw [Checker.entered, h.scopes]
  constructor
  · rintro ⟨s', hrun, hquiet⟩
    obtain ⟨t, s₁, hbody, rfl⟩ := checkFunction_eq_ok.mp hrun
    obtain ⟨h₁, h₂⟩ := prefix_squeeze (s.prefix_complained_errors _) (judge_kept hbody).errors
      hquiet
    have hp := (h.registered_errors_iff p).mp h₁
    have htype := hasType_of_judge hresult body _ t s₁
      (h.entered (hvalid p (by simp)) hp) hbody h₂
    rw [hinitial] at htype
    exact ⟨hp, t, s₁.scopes, htype⟩
  · rintro ⟨hp, t, Γ, htype⟩
    rw [← hinitial] at htype
    obtain ⟨s₁, hrun, herrors, -⟩ := judge_of_hasType hresult body _ t Γ
      (h.entered (hvalid p (by simp)) hp) htype
    exact ⟨s₁.exited, checkFunction_eq_ok.mpr ⟨t, s₁, hrun, rfl⟩,
      herrors.trans ((h.registered_errors_iff p).mpr hp)⟩

lemma prefix_checkFunction_errors {p : Prototype} {body : Tree} {s s' : Checker} {x : Unit}
    (h : checkFunction p body s = .ok (x, s')) : s.log.errors <+: s'.log.errors := by
  obtain ⟨t, s₁, hbody, rfl⟩ := checkFunction_eq_ok.mp h
  exact (s.prefix_complained_errors _).trans (judge_kept hbody).errors

lemma prefix_checkFunctions_errors {fs : List (Prototype × Tree)} {s s' : Checker} {x : Unit}
    (h : checkFunctions fs s = .ok (x, s')) : s.log.errors <+: s'.log.errors := by
  induction fs generalizing s with
  | nil =>
      obtain ⟨-, rfl⟩ := pure_eq_ok.mp h
      exact List.prefix_rfl
  | cons f fs ih =>
      obtain ⟨_, s₁, hf, hfs⟩ := bind_eq_ok.mp h
      exact (prefix_checkFunction_errors hf).trans (ih hfs)

/-- Functions can be added one after the other to the known functions `ps`: each has a new name and
a body with a type. -/
def Admitted (ps : List Prototype) : List (Prototype × Tree) → Prop
  | [] => True
  | (p, body) :: fs =>
    (p.name ∉ ps.map Prototype.name ∧ BodyTyped (ps ++ [p]) p body) ∧ Admitted (ps ++ [p]) fs

/-- Functions are checked without an error exactly if they can be added one after the other. -/
lemma checkFunctions_quiet_iff {fs : List (Prototype × Tree)} {ps : List Prototype} {s : Checker}
    (h : Knows ps s) (hvalid : ∀ q ∈ ps ++ fs.map Prod.fst, ValidPrototype q) :
    (∃ s', checkFunctions fs s = .ok ((), s') ∧ s'.log.errors = s.log.errors) ↔
      Admitted ps fs := by
  induction fs generalizing ps s with
  | nil => exact ⟨fun _ => trivial, fun _ => ⟨s, pure_eq_ok.mpr ⟨rfl, rfl⟩, rfl⟩⟩
  | cons f fs ih =>
      obtain ⟨p, body⟩ := f
      have hp : ∀ q ∈ ps ++ [p], ValidPrototype q := by
        intro q hq
        refine hvalid q ?_
        simp only [List.map_cons, List.mem_append, List.mem_cons, List.not_mem_nil,
          or_false] at hq ⊢
        tauto
      have hfirst := checkFunction_quiet_iff h hp body
      have hnext : ∀ s₁, p.name ∉ ps.map Prototype.name →
          checkFunction p body s = .ok ((), s₁) → Knows (ps ++ [p]) s₁ := by
        intro s₁ hnew hrun
        obtain ⟨t, s₂, hbody, rfl⟩ := checkFunction_eq_ok.mp hrun
        exact h.exited hnew (judge_kept hbody)
      have hvalid' : ∀ q ∈ (ps ++ [p]) ++ fs.map Prod.fst, ValidPrototype q := by
        simpa using hvalid
      constructor
      · rintro ⟨s', hrun, hquiet⟩
        obtain ⟨_, s₁, hf, hfs⟩ := bind_eq_ok.mp hrun
        obtain ⟨h₁, h₂⟩ := prefix_squeeze (prefix_checkFunction_errors hf)
          (prefix_checkFunctions_errors hfs) hquiet
        have hadd := hfirst.mp ⟨s₁, hf, h₁⟩
        exact ⟨hadd, (ih (hnext s₁ hadd.1 hf) hvalid').mp ⟨s', hfs, h₂⟩⟩
      · rintro ⟨hadd, hrest⟩
        obtain ⟨s₁, hf, h₁⟩ := hfirst.mpr hadd
        obtain ⟨s', hfs, h₂⟩ := (ih (hnext s₁ hadd.1 hf) hvalid').mpr hrest
        exact ⟨s', bind_eq_ok.mpr ⟨(), s₁, hf, hfs⟩, h₂.trans h₁⟩

/-- What it means that functions can be added, said of all of them at once. -/
lemma admitted_iff {fs : List (Prototype × Tree)} {ps : List Prototype}
    (h : (ps.map Prototype.name).Nodup) :
    Admitted ps fs ↔ ((ps ++ fs.map Prod.fst).map Prototype.name).Nodup ∧
      ∀ earlier f later, fs = earlier ++ f :: later →
        BodyTyped (ps ++ (earlier ++ [f]).map Prod.fst) f.1 f.2 := by
  induction fs generalizing ps with
  | nil =>
      refine ⟨fun _ => ⟨by simpa using h, fun earlier f later hf => ?_⟩, fun _ => trivial⟩
      simp at hf
  | cons f fs ih =>
      obtain ⟨p, body⟩ := f
      have hsplit : (ps ++ [p]) ++ fs.map Prod.fst = ps ++ ((p, body) :: fs).map Prod.fst := by
        simp
      constructor
      · rintro ⟨⟨hnew, hbody⟩, hrest⟩
        obtain ⟨hall, hbodies⟩ := (ih (nodup_names_append.mpr ⟨hnew, h⟩)).mp hrest
        refine ⟨hsplit ▸ hall, ?_⟩
        intro earlier f later hf
        cases earlier with
        | nil =>
            obtain ⟨rfl, rfl⟩ := List.cons.inj hf
            exact hbody
        | cons e earlier =>
            obtain ⟨rfl, rfl⟩ := List.cons.inj hf
            simpa using hbodies earlier f later rfl
      · rintro ⟨hall, hbodies⟩
        have hnodup : ((ps ++ [p]).map Prototype.name).Nodup := by
          rw [← hsplit, List.map_append] at hall
          exact (List.nodup_append.mp hall).1
        have hnew := (nodup_names_append.mp hnodup).1
        refine ⟨⟨hnew, hbodies [] _ fs rfl⟩, (ih hnodup).mpr ⟨hsplit ▸ hall, ?_⟩⟩
        intro earlier f later hf
        simpa using hbodies ((p, body) :: earlier) f later (by simp [hf])

lemma prefix_declarations_errors (ds : List Prototype) (s : Checker) :
    s.log.errors <+: (ds.foldl Checker.registered s).log.errors := by
  induction ds generalizing s with
  | nil => exact List.prefix_rfl
  | cons d ds ih => exact (s.prefix_complained_errors (s.taken d)).trans (ih (s.registered d))

/-- Declarations with new and distinct names are known once they are registered. -/
lemma Knows.declarations {ps : List Prototype} {s : Checker} (h : Knows ps s)
    (ds : List Prototype) (hall : ((ps ++ ds).map Prototype.name).Nodup) :
    Knows (ps ++ ds) (ds.foldl Checker.registered s) := by
  induction ds generalizing ps s with
  | nil => simpa using h
  | cons d ds ih =>
      rw [List.append_cons] at hall ⊢
      have hd : ((ps ++ [d]).map Prototype.name).Nodup := by
        rw [List.map_append] at hall
        exact (List.nodup_append.mp hall).1
      exact ih (h.registered (nodup_names_append.mp hd).1) hall

/-- Declarations are registered without an error exactly if their names are new and distinct. -/
lemma declarations_quiet_iff {ps : List Prototype} {s : Checker} (h : Knows ps s)
    (hps : (ps.map Prototype.name).Nodup) (ds : List Prototype) :
    (ds.foldl Checker.registered s).log.errors = s.log.errors ↔
      ((ps ++ ds).map Prototype.name).Nodup := by
  induction ds generalizing ps s with
  | nil => simpa using hps
  | cons d ds ih =>
      rw [List.append_cons, List.foldl_cons]
      constructor
      · intro hquiet
        obtain ⟨h₁, h₂⟩ := prefix_squeeze (s.prefix_complained_errors (s.taken d))
          (prefix_declarations_errors ds (s.registered d)) hquiet
        have hnew := (h.registered_errors_iff d).mp h₁
        exact (ih (h.registered hnew) (nodup_names_append.mpr ⟨hnew, hps⟩)).mp h₂
      · intro hall
        have hd : ((ps ++ [d]).map Prototype.name).Nodup := by
          rw [List.map_append] at hall
          exact (List.nodup_append.mp hall).1
        have hnew := (nodup_names_append.mp hd).1
        exact ((ih (h.registered hnew) hd).mpr hall).trans ((h.registered_errors_iff d).mpr hnew)

end Typing

open Typing

/-- A whole run of the checker. -/
lemma typeCheck_eq_ok {p : Program} {log log' : Log} {types : Array Ty} :
    typeCheck p log = .ok (types, log') ↔
      ∃ s, checkProgram p (.start p.arena.size log) = .ok ((), s) ∧
        types = s.types ∧ log' = s.log := by
  rw [typeCheck, StateT.run]
  cases checkProgram p (.start p.arena.size log) with
  | error e => simp
  | ok r =>
      obtain ⟨⟨⟩, s⟩ := r
      simp [eq_comm]

/-- The bodies of a program, paired with their prototypes as the checker takes them. -/
def Program.bodies (p : Program) : List (Prototype × Tree) :=
  p.functions.map fun f => (f.prototype, p.body f)

lemma Program.map_fst_bodies (p : Program) :
    p.bodies.map Prod.fst = p.functions.map Function.prototype := by
  simp [Program.bodies]

/-- A program is well typed if its functions can be added one after the other to its declarations,
the names of which are distinct. -/
lemma Program.wellTyped_iff {p : Program} :
    p.WellTyped ↔ (p.declarations.map Prototype.name).Nodup ∧
      Admitted p.declarations p.bodies := by
  constructor
  · rintro ⟨hdistinct, hbodies⟩
    have hnames : (p.declarations.map Prototype.name).Nodup := by
      rw [Program.prototypes, List.map_append] at hdistinct
      exact (List.nodup_append.mp hdistinct).1
    refine ⟨hnames, (admitted_iff hnames).mpr ⟨by rwa [p.map_fst_bodies], ?_⟩⟩
    intro earlier f later hf
    obtain ⟨e, r, hr, rfl, hr'⟩ := List.map_eq_append_iff.mp hf
    obtain ⟨g, l, rfl, rfl, rfl⟩ := List.map_eq_cons_iff.mp hr'
    simpa [Function.comp_def] using hbodies e g l hr
  · rintro ⟨hnames, hadmitted⟩
    obtain ⟨hdistinct, hbodies⟩ := (admitted_iff hnames).mp hadmitted
    refine ⟨by rwa [p.map_fst_bodies] at hdistinct, fun earlier f later hf => ?_⟩
    have hbody := hbodies (earlier.map fun f => (f.prototype, p.body f)) (f.prototype, p.body f)
      (later.map fun f => (f.prototype, p.body f)) (by simp [Program.bodies, hf])
    simpa [Function.comp_def] using hbody

/-- Checking a program records no error exactly if the program is well typed. -/
lemma accepted_iff_wellTyped {p : Program} (hvalid : p.StatedTypesValid) (log : Log) :
    p.Accepted log ↔ p.WellTyped := by
  have hstart : Knows [] (Checker.start p.arena.size log) := ⟨fun _ => rfl, rfl⟩
  have hquiet := declarations_quiet_iff hstart (by simp) p.declarations
  have hknown : (p.declarations.map Prototype.name).Nodup → Knows p.declarations _ :=
    hstart.declarations p.declarations
  have hstated : ∀ q ∈ p.declarations ++ p.bodies.map Prod.fst, ValidPrototype q := by
    rw [p.map_fst_bodies]
    exact hvalid
  rw [Program.wellTyped_iff]
  constructor
  · rintro ⟨types, log', hrun, herrors⟩
    obtain ⟨s, hprogram, -, rfl⟩ := typeCheck_eq_ok.mp hrun
    obtain ⟨_, s₁, hds, hfs⟩ := bind_eq_ok.mp hprogram
    obtain rfl := checkDeclarations_eq_ok.mp hds
    obtain ⟨h₁, h₂⟩ := prefix_squeeze (prefix_declarations_errors _ _)
      (prefix_checkFunctions_errors hfs) herrors
    have hnames := hquiet.mp h₁
    exact ⟨hnames, (checkFunctions_quiet_iff (hknown hnames) hstated).mp ⟨s, hfs, h₂⟩⟩
  · rintro ⟨hnames, hadmitted⟩
    obtain ⟨s, hfs, hs⟩ := (checkFunctions_quiet_iff (hknown hnames) hstated).mpr hadmitted
    have hprogram : checkProgram p (.start p.arena.size log) = .ok ((), s) :=
      bind_eq_ok.mpr ⟨(), _, checkDeclarations_eq_ok.mpr rfl, hfs⟩
    exact ⟨s.types, s.log, typeCheck_eq_ok.mpr ⟨s, hprogram, rfl, rfl⟩,
      hs.trans (hquiet.mpr hnames)⟩

end Fern
