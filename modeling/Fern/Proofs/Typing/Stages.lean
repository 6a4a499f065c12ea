import Fern.Proofs.Typing.Table
import Fern.Proofs.Typing.Trace

/-!
The checker between two functions.

* `Setting.registered`: what can be read after some functions have been registered. A function
  leaves nothing else behind that a later one could read (`setting_of_checkFunction`).
* `lastNamed`: of the registered functions of one name the last can be called.
* `Program.checkedUpTo`: the checker after the declarations and the first functions of a program.
  `checkedUpTo_succ` is the step from one function to the next, and a whole check ends after the
  last one (`typeCheck_eq_checkedUpTo`).
* `Checker.Grown`: what was found stays, and more comes after it.
-/

namespace Fern

namespace Typing

/-! ### The setting between two functions -/

/-- The functions that can be called once one more is registered. -/
def withSignature (bs : Bindings Signature) (p : Prototype) : Bindings Signature :=
  bs.set p.name (.ofPrototype p)

/-- The functions that can be called once those of `ps` are registered. -/
def Setting.registered (E : Setting) (ps : List Prototype) : Setting :=
  { E with signatures := ps.foldl withSignature E.signatures }

lemma Setting.registered_append (E : Setting) (ps qs : List Prototype) :
    E.registered (ps ++ qs) = (E.registered ps).registered qs :=
  congrArg (fun bs => { E with signatures := bs }) List.foldl_append

lemma setting_declarations (ds : List Prototype) (s : Checker) :
    (ds.foldl Checker.registered s).setting = s.setting.registered ds := by
  induction ds generalizing s with
  | nil => rfl
  | cons d ds ih => exact ih (s.registered d)

/-- Outside of functions, all that a function leaves behind is its signature, whatever its body
is. -/
lemma setting_of_checkFunction {p : Prototype} {body : Tree} {s s' : Checker} {x : Unit}
    (h : checkFunction p body s = .ok (x, s')) (hs : s.returnType = none) :
    s'.setting = s.setting.registered [p] := by
  obtain ⟨t, s₁, hbody, rfl⟩ := checkFunction_eq_ok.mp h
  have hkept := judge_kept hbody
  have hscopes : s₁.exited.scopes = s.scopes := hkept.outer
  have hsignatures : s₁.exited.signatures = (s.registered p).signatures := hkept.signatures
  simp only [Checker.setting, hscopes, hsignatures, Setting.registered, hs]
  rfl

lemma setting_of_checkFunctions {fs : List (Prototype × Tree)} {s s' : Checker} {x : Unit}
    (h : checkFunctions fs s = .ok (x, s')) (hs : s.returnType = none) :
    s'.setting = s.setting.registered (fs.map Prod.fst) := by
  induction fs generalizing s with
  | nil =>
      obtain ⟨-, rfl⟩ := pure_eq_ok.mp h
      rfl
  | cons f fs ih =>
      obtain ⟨_, s₁, hf, hfs⟩ := bind_eq_ok.mp h
      have hset := setting_of_checkFunction hf hs
      have hs₁ : s₁.returnType = none := (congrArg Setting.returnType hset).trans hs
      rw [ih hfs hs₁, hset]
      rfl

/-! ### The functions that can be called -/

/-- The last of some prototypes with a name. -/
def lastNamed (ps : List Prototype) (name : String) : Option Prototype :=
  ps.reverse.find? (·.name = name)

lemma find?_foldl_withSignature (ps : List Prototype) (name : String) :
    (ps.foldl withSignature []).find? name = (lastNamed ps name).map .ofPrototype :=
  (Bindings.find?_foldl_set _ _ ps name []).trans (Option.or_none ..)

lemma mem_of_lastNamed {ps : List Prototype} {name : String} {q : Prototype}
    (h : lastNamed ps name = some q) : q ∈ ps ∧ q.name = name := by
  have hname := List.find?_some (p := fun r : Prototype => decide (r.name = name)) h
  exact ⟨List.mem_reverse.mp (List.mem_of_find?_eq_some h), of_decide_eq_true hname⟩

lemma isSome_lastNamed {ps : List Prototype} {name : String} :
    (lastNamed ps name).isSome ↔ name ∈ ps.map Prototype.name := by
  simp [lastNamed]

/-! ### What is found -/

/-- The state `s'` has all the findings of `s`, and perhaps some more. -/
def Checker.Grown (s s' : Checker) : Prop := ∃ found, s'.log = s.log ++ found

lemma Traced.grown {I : NodeId → Prop} {α : Type} {x : Relabelling → Check α} (hx : Traced I x)
    {r : Relabelling} {s s' : Checker} {a : α} (h : x r s = .ok (a, s')) : s.Grown s' := by
  rcases hx s.setting with ⟨i, hfail⟩ | ⟨b, E, τ, -, hdone⟩
  · rw [hfail r s rfl] at h
    cases h
  · rw [hdone r s rfl] at h
    cases h
    exact ⟨(τ.relabel r).found, rfl⟩

/-- The checking of functions, as a computation over their own labels. -/
lemma exists_traced_checkFunctions (I : NodeId → Prop) (fs : List (Prototype × Tree))
    (hI : ∀ f ∈ fs, ∀ u, f.2.Contains u → I u.id) :
    ∃ x, Traced I x ∧ x .same = checkFunctions fs := by
  refine ⟨_, .checkFunctions fs hI, congrArg checkFunctions ?_⟩
  refine (List.map_congr_left fun f _ => ?_).trans (List.map_id' _)
  exact congrArg₂ Prod.mk f.1.relocate_same f.2.relabel_same

lemma checkFunctions_singleton_eq_ok {p : Prototype} {body : Tree} {s s' : Checker} :
    checkFunctions [(p, body)] s = .ok ((), s') ↔ checkFunction p body s = .ok ((), s') := by
  rw [checkFunctions, bind_eq_ok]
  constructor
  · rintro ⟨_, s₁, h, hnil⟩
    obtain ⟨-, rfl⟩ := pure_eq_ok.mp hnil
    exact h
  · exact fun h => ⟨(), s', h, rfl⟩

lemma checkFunctions_grown {fs : List (Prototype × Tree)} {s s' : Checker} {x : Unit}
    (h : checkFunctions fs s = .ok (x, s')) : s.Grown s' := by
  obtain ⟨y, hy, hrun⟩ := exists_traced_checkFunctions Any fs fun _ _ _ _ => trivial
  exact hy.grown ((congrFun hrun s).trans h)

end Typing

open Typing

/-! ### Stages of a check -/

/-- A program is checked function by function, after its declarations. -/
lemma checkProgram_eq_ok {p : Program} {s s' : Checker} :
    checkProgram p s = .ok ((), s') ↔
      checkFunctions p.bodies (p.declarations.foldl Checker.registered s) = .ok ((), s') := by
  simp only [checkProgram, bind_eq_ok, checkDeclarations_eq_ok, exists_eq_left, exists_const]
  rfl

/-- The checker after the declarations and the first `n` functions of a program. -/
def Program.checkedUpTo (p : Program) (n : ℕ) (log : Log) : Except MissingNode Checker :=
  ((checkDeclarations p.declarations >>= fun _ => checkFunctions (p.bodies.take n)).run
    (.start p.arena.size log)).map Prod.snd

section Stages

variable {p : Program} {n : ℕ} {log : Log} {s s' : Checker}

/-- The checker after the declarations of a program. -/
def Program.declared (p : Program) (log : Log) : Checker :=
  p.declarations.foldl Checker.registered (.start p.arena.size log)

lemma Program.checkedUpTo_eq_ok :
    p.checkedUpTo n log = .ok s ↔
      checkFunctions (p.bodies.take n) (p.declared log) = .ok ((), s) := by
  have hrun : (checkDeclarations p.declarations >>= fun _ => checkFunctions (p.bodies.take n))
      (.start p.arena.size log) = checkFunctions (p.bodies.take n) (p.declared log) := by
    have hdeclared : checkDeclarations p.declarations (.start p.arena.size log)
        = .ok ((), p.declared log) := checkDeclarations_eq_ok.mpr rfl
    simp only [bind, StateT.bind, Except.bind, hdeclared]
  rw [checkedUpTo, StateT.run, hrun]
  cases checkFunctions (p.bodies.take n) (p.declared log) with
  | error e => simp [Except.map]
  | ok r =>
      obtain ⟨⟨⟩, s₁⟩ := r
      simp [Except.map]

/-- A function is checked after those before it. -/
lemma Program.checkedUpTo_succ {f : Function} (hf : p.functions[n]? = some f) :
    p.checkedUpTo (n + 1) log = .ok s' ↔
      ∃ s, p.checkedUpTo n log = .ok s ∧
        checkFunction f.prototype (p.body f) s = .ok ((), s') := by
  have hbody : p.bodies[n]? = some (f.prototype, p.body f) := by
    rw [bodies, List.getElem?_map, hf]
    rfl
  simp only [checkedUpTo_eq_ok, List.take_add_one, hbody, Option.toList_some,
    checkFunctions_append_eq_ok, checkFunctions_singleton_eq_ok]

/-- A whole check ends after the last function. -/
lemma typeCheck_eq_checkedUpTo (p : Program) (log : Log) :
    typeCheck p log = (p.checkedUpTo p.functions.length log).map fun s => (s.types, s.log) := by
  have hall : p.bodies.take p.functions.length = p.bodies :=
    List.take_of_length_le (by simp [Program.bodies])
  have hrun : p.checkedUpTo p.functions.length log
      = (checkProgram p (.start p.arena.size log)).map Prod.snd := by
    rw [Program.checkedUpTo, hall]
    rfl
  rw [hrun, typeCheck, StateT.run]
  cases checkProgram p (.start p.arena.size log) <;> rfl

/-- The prototypes that are registered when `n` functions have been checked. -/
def Program.registeredUpTo (p : Program) (n : ℕ) : List Prototype :=
  p.declarations ++ (p.functions.take n).map Function.prototype

lemma Program.registeredUpTo_succ {f : Function} (hf : p.functions[n]? = some f) :
    p.registeredUpTo (n + 1) = p.registeredUpTo n ++ [f.prototype] := by
  simp only [registeredUpTo, List.take_add_one, hf, Option.toList_some, List.map_append,
    List.map_singleton, List.append_assoc]

lemma Program.registeredUpTo_length (p : Program) :
    p.registeredUpTo p.functions.length = p.prototypes := by
  rw [registeredUpTo, List.take_length, prototypes]

lemma Program.mem_prototypes_of_mem_registeredUpTo {q : Prototype} (hq : q ∈ p.registeredUpTo n) :
    q ∈ p.prototypes := by
  rcases List.mem_append.mp hq with hq | hq
  · exact List.mem_append_left _ hq
  · obtain ⟨g, hg, rfl⟩ := List.mem_map.mp hq
    exact List.mem_append_right _ (List.mem_map_of_mem (List.mem_of_mem_take hg))

/-- Between two functions only the signatures of the earlier ones can be read. -/
lemma setting_of_checkedUpTo (h : p.checkedUpTo n log = .ok s) :
    s.setting = Setting.registered ⟨.empty, [], none⟩ (p.registeredUpTo n) := by
  have hdeclared : (p.declared log).setting
      = Setting.registered ⟨.empty, [], none⟩ p.declarations := setting_declarations _ _
  have hnone : (p.declared log).returnType = none := congrArg Setting.returnType hdeclared
  have hfunctions : (p.bodies.take n).map Prod.fst
      = (p.functions.take n).map Function.prototype := by
    rw [List.map_take, p.map_fst_bodies, List.map_take]
  rw [setting_of_checkFunctions (Program.checkedUpTo_eq_ok.mp h) hnone, hdeclared, hfunctions,
    Program.registeredUpTo, Setting.registered_append]

/-- Between two functions, the functions that can be called are those registered before. -/
lemma signatures_of_checkedUpTo (h : p.checkedUpTo n log = .ok s) :
    s.signatures = (p.registeredUpTo n).foldl withSignature [] :=
  congrArg Setting.signatures (setting_of_checkedUpTo h)

/-- A whole check ends after the last function. -/
lemma exists_checkedUpTo_of_typeCheck {out : Log} {types : Array Ty}
    (h : typeCheck p log = .ok (types, out)) :
    ∃ s, p.checkedUpTo p.functions.length log = .ok s ∧ types = s.types ∧ out = s.log := by
  rw [typeCheck_eq_checkedUpTo] at h
  cases hs : p.checkedUpTo p.functions.length log with
  | error e =>
      rw [hs] at h
      cases h
  | ok s =>
      rw [hs] at h
      cases h
      exact ⟨s, rfl, rfl, rfl⟩

/-- On the way to a later stage the earlier ones are passed. -/
lemma exists_checkedUpTo_of_le {m : ℕ} (hnm : n ≤ m) (h : p.checkedUpTo m log = .ok s) :
    ∃ s₀, p.checkedUpTo n log = .ok s₀ ∧ s₀.log.errors <+: s.log.errors := by
  rw [Program.checkedUpTo_eq_ok, ← List.take_append_drop n (p.bodies.take m), List.take_take,
    min_eq_left hnm] at h
  obtain ⟨s₀, hfirst, hrest⟩ := checkFunctions_append_eq_ok.mp h
  exact ⟨s₀, Program.checkedUpTo_eq_ok.mpr hfirst, prefix_checkFunctions_errors hrest⟩

/-- In a check there is a run on each body, after the functions before it, and what comes after it
only ever adds errors. -/
lemma exists_judge_body {f : Function} {out : Log} {types : Array Ty}
    (h : typeCheck p log = .ok (types, out)) (hf : p.functions[n]? = some f) :
    ∃ s t s', p.checkedUpTo n log = .ok s ∧
      judge (p.body f) (s.entered f.prototype) = .ok (t, s') ∧
      s'.log.errors <+: out.errors := by
  obtain ⟨hn, -⟩ := List.getElem?_eq_some_iff.mp hf
  obtain ⟨s', hs', rfl, rfl⟩ := exists_checkedUpTo_of_typeCheck h
  obtain ⟨s₁, hs₁, hlater⟩ := exists_checkedUpTo_of_le hn hs'
  obtain ⟨s, hs, hchecked⟩ := (Program.checkedUpTo_succ hf).mp hs₁
  obtain ⟨t, s₂, hbody, rfl⟩ := checkFunction_eq_ok.mp hchecked
  exact ⟨s, t, s₂, hs, hbody, hlater⟩

lemma prefix_checkedUpTo_errors (h : p.checkedUpTo n log = .ok s) :
    log.errors <+: s.log.errors :=
  (prefix_declarations_errors p.declarations (.start p.arena.size log)).trans
    (prefix_checkFunctions_errors (Program.checkedUpTo_eq_ok.mp h))

/-- Where no name is stated to be of the type of a failure, the checker is clean between two
functions if nothing was complained of in those before. -/
lemma clean_of_checkedUpTo (hvalid : p.StatedTypesValid) (h : p.checkedUpTo n log = .ok s)
    (hquiet : s.log.errors = log.errors) : s.Clean := by
  have hfunctions := Program.checkedUpTo_eq_ok.mp h
  have hdeclared : log.errors <+: (p.declared log).log.errors :=
    prefix_declarations_errors p.declarations (.start p.arena.size log)
  obtain ⟨-, hquiet'⟩ :=
    prefix_squeeze hdeclared (prefix_checkFunctions_errors hfunctions) hquiet
  exact (hvalid.clean log).checkFunctions (fun f hf => hvalid.bodies f (List.mem_of_mem_take hf))
    hfunctions hquiet'

/-- Where no body lacks a part, every stage is reached. -/
lemma exists_checkedUpTo (h : ∀ f ∈ p.functions, (p.body f).Complete) (n : ℕ) (log : Log) :
    ∃ s, p.checkedUpTo n log = .ok s := by
  have hbodies : ∀ f ∈ p.bodies.take n, f.2.Complete := by
    intro f hf
    obtain ⟨g, hg, rfl⟩ := List.mem_map.mp (List.mem_of_mem_take hf)
    exact h g hg
  obtain ⟨s, hs⟩ := exists_checkFunctions hbodies (p.declared log)
  exact ⟨s, Program.checkedUpTo_eq_ok.mpr hs⟩

end Stages

end Fern
