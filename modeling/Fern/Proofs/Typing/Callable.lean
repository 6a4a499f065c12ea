import Fern.Proofs.Typing.Errors

/-!
The functions that can be called, and their names.

* `Program.find?_of_judges`: among the registered functions of one name the last can be called.
* `Program.nodup_names`, `Program.not_complains`, `Program.exists_judges`: what it means that a
  check records no error, for the names of functions and for the checks in the bodies.
* `Program.Resolves`: a name is that of one declaration or of one function, and not of both.
* `callable_functions`: **what can be called, and which names are taken**.
* `unchecked_callee_may_be_unknown`: what is said of calls is not true of those that remain
  unchecked.
-/

namespace Fern

open Typing

/-- The element with a given key, if no two have the same. -/
lemma find?_key_eq_some {α : Type} {key : α → String} {as : List α} (h : (as.map key).Nodup)
    {k : String} {a : α} : as.find? (key · = k) = some a ↔ a ∈ as ∧ key a = k := by
  constructor
  · exact fun ha => ⟨List.mem_of_find?_eq_some ha, by simpa using List.find?_some ha⟩
  · rintro ⟨ha, rfl⟩
    cases hfind : as.find? (key · = key a) with
    | none => simpa using List.find?_eq_none.mp hfind a ha
    | some b =>
        have hkey : key b = key a := by simpa using List.find?_some hfind
        rw [List.inj_on_of_nodup_map h (List.mem_of_find?_eq_some hfind) ha hkey]

namespace Program

variable {p : Program} {n : ℕ} {log : Log}

/-- While a body is checked, a name stands for the last function of this name among the declarations
and the functions up to this one, itself included. -/
lemma find?_of_judges {u : Tree} {r : Checker} (h : p.Judges log n u r) (name : String) :
    r.signatures.find? name = (lastNamed (p.registeredUpTo (n + 1)) name).map .ofPrototype := by
  obtain ⟨f, s, hf, hs, hvisits⟩ := h
  have hentered : (s.entered f.prototype).signatures
      = (p.registeredUpTo (n + 1)).foldl withSignature [] := by
    rw [registeredUpTo_succ hf, List.foldl_append, ← signatures_of_checkedUpTo hs]
    rfl
  rw [hvisits.inside.signatures, hentered, find?_foldl_withSignature]

/-! ### Checks without an error -/

section Quiet

variable {out : Log} {types : Array Ty}

/-- In a check without an error no name is taken twice. -/
lemma nodup_names (h : typeCheck p log = .ok (types, out)) (hquiet : out.errors = log.errors) :
    (p.prototypes.map Prototype.name).Nodup := by
  obtain ⟨found, herrors, hfilter, -⟩ := exists_found_typeCheck h
  obtain rfl : found = [] := List.self_eq_append_right.mp (hquiet.symm.trans herrors)
  exact redeclared_eq_nil_iff.mp (List.map_eq_nil_iff.mp hfilter.symm)

/-- In a check without an error no check of an expression complains. -/
lemma not_complains (h : typeCheck p log = .ok (types, out)) (hquiet : out.errors = log.errors)
    {u : Tree} {r : Checker} {c : Complaint} (hu : p.Judges log n u r) : ¬Complains u r c := by
  intro hc
  obtain ⟨found, herrors, -, hfound⟩ := exists_found_typeCheck h
  obtain rfl : found = [] := List.self_eq_append_right.mp (hquiet.symm.trans herrors)
  exact List.not_mem_nil ((hfound c.diagnostic).mpr (.inr ⟨n, u, r, c, hu, hc, rfl⟩))

/-- Where no name is stated to be of the type of a failure, a check without an error judges every
part of every body. -/
lemma exists_judges (hvalid : p.StatedTypesValid) (h : typeCheck p log = .ok (types, out))
    (hquiet : out.errors = log.errors) {f : Function} (hf : p.functions[n]? = some f) {u : Tree}
    (hu : (p.body f).Contains u) : ∃ r, p.Judges log n u r := by
  obtain ⟨s, t, s', hs, hbody, hlater⟩ := exists_judge_body h hf
  -- the errors only ever grow, so nothing is found before the body, in it, or after it
  have hregistered : s.log.errors <+: (s.entered f.prototype).log.errors :=
    s.prefix_complained_errors _
  have hafter : (s.entered f.prototype).log.errors <+: out.errors :=
    (judge_kept hbody).errors.trans hlater
  obtain ⟨h₁, h₂⟩ :=
    prefix_squeeze (prefix_checkedUpTo_errors hs) (hregistered.trans hafter) hquiet
  obtain ⟨-, h₃⟩ := prefix_squeeze hregistered hafter h₂
  obtain ⟨h₄, -⟩ := prefix_squeeze (judge_kept hbody).errors hlater h₃
  have hclean := (clean_of_checkedUpTo hvalid hs h₁).entered
    (hvalid.prototype (List.mem_of_getElem? hf))
  obtain ⟨r, hr⟩ := exists_visits hu hclean hbody h₄
  exact ⟨r, f, s, hf, hs, hr⟩

end Quiet

/-! ### The functions of a program by name -/

/-- Exactly one of the declarations and the functions has something of this name, and its prototype
is `q`. -/
def Resolves (p : Program) (name : String) (q : Prototype) : Prop :=
  (p.findDeclaration name = some q ∧ p.findFunction name = none) ∨
    p.findDeclaration name = none ∧ ∃ f, p.findFunction name = some f ∧ f.prototype = q

/-- If the names are distinct, each is found in one of the two lists only. -/
lemma resolves_of_nodup (h : (p.prototypes.map Prototype.name).Nodup) {q : Prototype}
    (hq : q ∈ p.prototypes) : p.Resolves q.name q := by
  rw [prototypes, List.map_append, List.map_map, List.nodup_append] at h
  obtain ⟨hdeclarations, hfunctions, hapart⟩ := h
  rcases List.mem_append.mp hq with hdeclared | hdefined
  · refine .inl ⟨(find?_key_eq_some hdeclarations).mpr ⟨hdeclared, rfl⟩, ?_⟩
    refine List.find?_eq_none.mpr fun f hf hname => ?_
    exact hapart _ (List.mem_map_of_mem hdeclared) _ (List.mem_map_of_mem hf)
      (of_decide_eq_true hname).symm
  · obtain ⟨f, hf, rfl⟩ := List.mem_map.mp hdefined
    refine .inr ⟨?_, f, (find?_key_eq_some hfunctions).mpr ⟨hf, rfl⟩, rfl⟩
    refine List.find?_eq_none.mpr fun d hd hname => ?_
    exact hapart _ (List.mem_map_of_mem hd) _ (List.mem_map_of_mem hf) (of_decide_eq_true hname)

/-- In a check without an error, the check of a call uses the signature of the only function of the
name that is called. -/
lemma exists_resolves {out : Log} {types : Array Ty} (h : typeCheck p log = .ok (types, out))
    (hquiet : out.errors = log.errors) {id : NodeId} {l : Location} {callee : String}
    {arguments : List Tree} {r : Checker}
    (hr : p.Judges log n (.node id l (.call callee arguments)) r) :
    ∃ q, p.Resolves callee q ∧ r.signatures.find? callee = some (.ofPrototype q) ∧
      q.parameters.length = arguments.length := by
  have hquiet' : ∀ c, ¬Complains (.node id l (.call callee arguments)) r c :=
    fun c => not_complains h hquiet hr
  have hlast := find?_of_judges hr callee
  cases hq : lastNamed (p.registeredUpTo (n + 1)) callee with
  | none =>
      rw [hq] at hlast
      exact absurd (.unknownFunction hlast) (hquiet' _)
  | some q =>
      rw [hq] at hlast
      obtain ⟨hmem, rfl⟩ := mem_of_lastNamed hq
      refine ⟨q, ?_, hlast, ?_⟩
      · exact resolves_of_nodup (nodup_names h hquiet) (mem_prototypes_of_mem_registeredUpTo hmem)
      · by_contra hcount
        refine hquiet' _ (.argumentCount hlast ?_)
        simpa [Signature.ofPrototype] using hcount

end Program

/-- **The functions that can be called.** While a body is checked, a name stands for the last
function of this name among the declarations and the functions up to this one, itself included, and
for nothing if there is none.
A check records one error for each function with the name of an earlier one, in order and at its
place.
In a check without an error the names are distinct; the callee of each call that is checked is found
in exactly one of the two lists of a program, and its signature is the one that the check uses; and
where no prototype states the type of a failure, all parts of all bodies are checked, and with them
all calls.
There is a check of every program in the store of which no expression contains itself, if none is
missing; and no prototype that is parsed states the type of a failure. -/
theorem callable_functions :
    (∀ (p : Program) (log : Log) (n : ℕ) (u : Tree) (r : Checker), p.Judges log n u r →
      ∀ name, r.signatures.find? name
        = (lastNamed (p.registeredUpTo (n + 1)) name).map .ofPrototype) ∧
    (∀ (p : Program) (log out : Log) (types : Array Ty), typeCheck p log = .ok (types, out) →
      ∃ found, out.errors = log.errors ++ found ∧
        found.filter (·.problem.isRedeclaration) = (redeclared p.prototypes).map redeclaration) ∧
    (∀ (p : Program) (log out : Log) (types : Array Ty), typeCheck p log = .ok (types, out) →
      out.errors = log.errors →
        (p.prototypes.map Prototype.name).Nodup ∧
        (∀ n id l callee arguments r, p.Judges log n (.node id l (.call callee arguments)) r →
          ∃ q, p.Resolves callee q ∧ r.signatures.find? callee = some (.ofPrototype q) ∧
            q.parameters.length = arguments.length) ∧
        (p.StatedTypesValid → ∀ n f, p.functions[n]? = some f →
          ∀ u, (p.body f).Contains u → ∃ r, p.Judges log n u r)) ∧
    (∀ p : Program, p.arena.Acyclic →
      (∀ f ∈ p.functions, ∀ i, p.arena.Reaches f.body i → i < p.arena.size) →
      ∀ log, ∃ types out, typeCheck p log = .ok (types, out)) ∧
    ∀ (tokens : List Token) (log : Log) (p : Program), (parse tokens log).1 = some p →
      p.StatedTypesValid := by
  refine ⟨fun p log n u r => Program.find?_of_judges, fun p log out types h => ?_,
    fun p log out types h hquiet => ⟨?_, ?_, ?_⟩, fun p hacyclic hstored log => ?_,
    fun tokens log p => statedTypesValid_of_parse⟩
  · obtain ⟨found, herrors, hfilter, -⟩ := Program.exists_found_typeCheck h
    exact ⟨found, herrors, hfilter⟩
  · exact Program.nodup_names h hquiet
  · exact fun n id l callee arguments r => Program.exists_resolves h hquiet
  · exact fun hvalid n f hf u => Program.exists_judges hvalid h hquiet hf
  · exact exists_typeCheck (fun f hf => Arena.complete_tree hacyclic (hstored f hf)) log

/-- A declared function `k(a: int) -> int`. -/
def declaredFunction : Prototype := ⟨"k", [⟨"a", .int, ⟨0, 14⟩⟩], .int, ⟨0, 12⟩⟩

/-- A function `f(b: int) -> int` with the body `{ k(b) }`. -/
def callingFunction : Function := ⟨⟨"f", [⟨"b", .int, ⟨1, 7⟩⟩], .int, ⟨1, 5⟩⟩, 2⟩

/-- The two in a program. -/
def callingProgram : Program where
  arena := ((Arena.empty.add (.var "b") ⟨1, 28⟩).add (.call "k" [0]) ⟨1, 26⟩).add
    (.block [1]) ⟨1, 24⟩
  declarations := [declaredFunction]
  functions := [callingFunction]

/-- The call `k(b)` in the body. -/
def callingBody : Tree := .node 1 ⟨1, 26⟩ (.call "k" [.node 0 ⟨1, 28⟩ (.var "b")])

/-- A function `k() -> bool` with the body `{ true }`. -/
def laterFunction : Function := ⟨⟨"k", [], .bool, ⟨2, 5⟩⟩, 4⟩

/-- The program with a second function `k` after the others. -/
def redeclaringProgram : Program where
  arena := (callingProgram.arena.add (.boolean true) ⟨2, 19⟩).add (.block [3]) ⟨2, 17⟩
  declarations := [declaredFunction]
  functions := [callingFunction, laterFunction]

/-- The call of the declared function is checked against its declaration. A later function of the
same name is reported, and takes its place from there on. -/
theorem declared_function_callable :
    (∃ types r q, typeCheck callingProgram {} = .ok (types, {}) ∧
      callingProgram.Judges {} 0 callingBody r ∧ callingProgram.Resolves "k" q ∧
      r.signatures.find? "k" = some (.ofPrototype q)) ∧
    ∃ types out found r, typeCheck redeclaringProgram {} = .ok (types, out) ∧
      out.errors = found ∧ found ≠ [] ∧
      found.filter (·.problem.isRedeclaration) = [redeclaration laterFunction.prototype] ∧
      redeclaringProgram.Judges {} 1 (redeclaringProgram.body laterFunction) r ∧
      r.signatures.find? "k" = some (.ofPrototype laterFunction.prototype) := by
  obtain ⟨hsignatures, herrors, hquiet, -, -⟩ := callable_functions
  have hvalid : callingProgram.StatedTypesValid := by
    unfold Program.StatedTypesValid
    decide
  have hcall : (callingProgram.body callingFunction).Contains callingBody := by
    have hbody : callingProgram.body callingFunction
        = .node 2 ⟨1, 24⟩ (.block [callingBody]) := rfl
    rw [hbody]
    exact .child List.mem_cons_self (.self _)
  obtain ⟨-, hcalls, hjudged⟩ := hquiet callingProgram {} {} _ rfl rfl
  obtain ⟨r, hr⟩ := hjudged hvalid 0 callingFunction rfl _ hcall
  obtain ⟨q, hq, hsignature, -⟩ := hcalls 0 _ _ _ _ r hr
  obtain ⟨found, hfound, hfilter⟩ := herrors redeclaringProgram {} _ _ rfl
  have hlater : redeclaringProgram.Judges {} 1 (redeclaringProgram.body laterFunction) _ :=
    ⟨laterFunction, _, rfl, rfl, .self _ _⟩
  refine ⟨⟨_, r, q, rfl, hr, hq, hsignature⟩, _, _, found, _, rfl, hfound, ?_, hfilter, hlater, ?_⟩
  · rintro rfl
    cases hfound
  · exact hsignatures _ _ _ _ _ hlater "k"

/-- A declared function `k(a: int, b: int)`, and a function `g(x)` with the body `{ k(x, h()) }`,
where `x` is stated to be of the type of a failure, which no program can write. -/
def silentProgram : Program where
  arena := (((Arena.empty.add (.var "x") ⟨0, 40⟩).add (.call "h" []) ⟨0, 43⟩).add
    (.call "k" [0, 1]) ⟨0, 38⟩).add (.block [2]) ⟨0, 36⟩
  declarations := [⟨"k", [⟨"a", .int, ⟨0, 14⟩⟩, ⟨"b", .int, ⟨0, 22⟩⟩], .void, ⟨0, 12⟩⟩]
  functions := [⟨⟨"g", [⟨"x", .invalid, ⟨0, 30⟩⟩], .void, ⟨0, 28⟩⟩, 3⟩]

/-- A call may remain unchecked, and its callee unknown, where an argument before it is of the type
of a failure that was never complained of. -/
theorem unchecked_callee_may_be_unknown :
    ¬ ∀ (p : Program) (log out : Log) (types : Array Ty), p.arena.Acyclic →
      typeCheck p log = .ok (types, out) → out.errors = log.errors →
      ∀ f ∈ p.functions, ∀ id l callee arguments,
        (p.body f).Contains (.node id l (.call callee arguments)) → ∃ q, p.Resolves callee q := by
  intro h
  have hacyclic : silentProgram.arena.Acyclic :=
    ((((Arena.descending_empty.add (by decide)).add (by decide)).add (by decide)).add
      (by decide)).acyclic
  obtain ⟨q, hq⟩ := h silentProgram {} {} _ hacyclic rfl rfl _ List.mem_cons_self 1 ⟨0, 43⟩ "h" []
    (.child List.mem_cons_self (.child (.tail _ List.mem_cons_self) (.self _)))
  rcases hq with ⟨hdeclared, -⟩ | ⟨-, f, hf, -⟩
  · cases hdeclared
  · cases hf

end Fern
