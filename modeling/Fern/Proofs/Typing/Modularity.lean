import Fern.Proofs.Parsing.Layout
import Fern.Proofs.Typing.Stages

/-!
Functions are checked one by one.

* `checkFunction_renumbered`: what the checking of a function finds and enters depends on the
  functions registered before it, and not on the numbers of its body.
* `getElem?_enter`: the same entries under other numbers give the same types.
* `Program.Continues`: a program with further functions at the end.
* `functions_checked_separately`: **what is found in a function does not depend on the bodies of the
  other functions**, and further functions change nothing about the earlier ones.
-/

namespace Fern

namespace Typing

/-! ### One function -/

/-- The checking of a function over a body with other numbers: it fails at the same number, or it
finds the same and makes the same entries under the other numbers. -/
lemma checkFunction_renumbered (p : Prototype) (body : Tree) (E : Setting) :
    (∃ i, ∀ (f : NodeId → NodeId) (s : Checker), s.setting = E →
      checkFunction p (body.relabel (.ofNumbers f)) s = .error ⟨f i⟩) ∨
    ∃ (E' : Setting) (entries : List (NodeId × Ty)) (found : Log),
      (∀ e ∈ entries, Tree.HasNumber [body] e.1) ∧
      ∀ (f : NodeId → NodeId) (s : Checker), s.setting = E →
        checkFunction p (body.relabel (.ofNumbers f)) s
          = .ok ((), ⟨enter (entries.map fun e => (f e.1, e.2)) s.types, E'.scopes, E'.signatures,
              E'.returnType, s.log ++ found⟩) := by
  have hI : ∀ u, body.Contains u → Tree.HasNumber [body] u.id :=
    fun u hu => Tree.hasNumber_singleton_iff.mpr ⟨u, hu, rfl⟩
  have hplace : ∀ f, p.relocate (Relabelling.ofNumbers f).place = p := fun _ => p.relocate_same
  rcases Traced.checkFunction p hI E with ⟨i, h⟩ | ⟨_, E', τ, hτ, h⟩
  · exact .inl ⟨i, fun f s hs => hplace f ▸ h (.ofNumbers f) s hs⟩
  · refine .inr ⟨E', τ.entries, (τ.relabel .same).found, hτ, fun f s hs => ?_⟩
    have hrun : checkFunction (p.relocate (Relabelling.ofNumbers f).place) _ s = _ :=
      h (.ofNumbers f) s hs
    have hfound : (τ.relabel (.ofNumbers f)).found = (τ.relabel .same).found := by
      rw [Trace.found_relabel, Trace.found_relabel]
      rfl
    rw [hplace, Checker.traced, hfound] at hrun
    exact hrun

/-- With the same functions registered before it, a function with the same body but for its numbers
is checked with the same findings. -/
lemma checkFunction_same {p : Prototype} {body body' : Tree} {s s₁ t : Checker}
    (hbody : body.unnumbered = body'.unnumbered) (hset : s.setting = t.setting)
    (h : checkFunction p body s = .ok ((), s₁)) :
    ∃ t₁ found, checkFunction p body' t = .ok ((), t₁) ∧ s₁.log = s.log ++ found ∧
      t₁.log = t.log ++ found := by
  have hown : ∀ e : Tree, e.relabel (.ofNumbers fun i => i) = e := Tree.relabel_same
  have hzero : ∀ u : Checker, u.setting = t.setting →
      checkFunction p (body.relabel (.ofNumbers fun _ => 0)) u
        = checkFunction p (body'.relabel (.ofNumbers fun _ => 0)) u :=
    fun u _ => congrArg (fun e => checkFunction p e u) hbody
  rcases checkFunction_renumbered p body t.setting with ⟨i, hrun⟩ | ⟨E, entries, found, -, hrun⟩
  · have hfail := hrun (fun i => i) s hset
    rw [hown, h] at hfail
    cases hfail
  have hs := hrun (fun i => i) s hset
  rw [hown, h] at hs
  -- both bodies are the same without their numbers, and the run on that tells what both find
  have hcommon := (hzero t rfl).symm.trans (hrun _ t rfl)
  rcases checkFunction_renumbered p body' t.setting with
    ⟨i, hrun'⟩ | ⟨E', entries', found', -, hrun'⟩
  · rw [hrun' _ t rfl] at hcommon
    cases hcommon
  have ht := hrun' (fun i => i) t rfl
  rw [hown] at ht
  obtain rfl : found' = found := by
    rw [hrun' _ t rfl] at hcommon
    have hlog := congrArg (fun r => r.map fun q : Unit × Checker => q.2.log) hcommon
    exact Log.append_left_cancel (Except.ok.inj hlog)
  cases hs
  exact ⟨_, found', ht, rfl, rfl⟩

/-- The same entries under other numbers give the same types, if no two numbers fall together. -/
lemma getElem?_enter {f : NodeId → NodeId} {entries : List (NodeId × Ty)} {i : NodeId}
    (hinj : ∀ e ∈ entries, f e.1 = f i → e.1 = i) {types types' : Array Ty}
    (h : types'[f i]? = types[i]?) :
    (enter (entries.map fun e => (f e.1, e.2)) types')[f i]? = (enter entries types)[i]? := by
  induction entries generalizing types types' with
  | nil => exact h
  | cons e entries ih =>
      refine ih (fun d hd => hinj d (List.mem_cons_of_mem _ hd)) ?_
      by_cases hi : e.1 = i
      · obtain ⟨k, t⟩ := e
        subst hi
        have hsize : f k < types'.size ↔ k < types.size := by
          have hnone : types'[f k]? = none ↔ types[k]? = none := by rw [h]
          rwa [Array.getElem?_eq_none_iff, Array.getElem?_eq_none_iff, ← not_lt, ← not_lt,
            not_iff_not] at hnone
        simp only [Array.getElem?_setIfInBounds, if_true, hsize]
      · have hne : f e.1 ≠ f i := fun heq => hi (hinj e List.mem_cons_self heq)
        rw [Array.getElem?_setIfInBounds_ne hne, Array.getElem?_setIfInBounds_ne hi, h]

/-- Under a one-to-one change of numbers, the parts of a body get the same types. -/
lemma checkFunction_types {p : Prototype} {body : Tree} {f : NodeId → NodeId}
    (hinj : Set.InjOn f {i | Tree.HasNumber [body] i}) {s s₁ t t₁ : Checker}
    (hset : s.setting = t.setting) (h : checkFunction p body s = .ok ((), s₁))
    (h' : checkFunction p (body.relabel (.ofNumbers f)) t = .ok ((), t₁)) {i : NodeId}
    (hi : Tree.HasNumber [body] i) (hsame : t.types[f i]? = s.types[i]?) :
    t₁.types[f i]? = s₁.types[i]? := by
  have hown : body.relabel (.ofNumbers fun i => i) = body := body.relabel_same
  rcases checkFunction_renumbered p body t.setting with
    ⟨k, hrun⟩ | ⟨E, entries, found, hentries, hrun⟩
  · rw [hrun f t rfl] at h'
    cases h'
  have hs := hrun (fun i => i) s hset
  rw [hown, h] at hs
  rw [hrun f t rfl] at h'
  cases hs
  cases h'
  have hid : entries.map (fun e => (e.1, e.2)) = entries := List.map_id' _
  exact (getElem?_enter (fun e he heq => hinj (hentries e he) hi heq) hsame).trans
    (congrArg (fun es => (enter es s.types)[i]?) hid.symm)

end Typing

open Typing

/-! ### One function of a program -/

/-- The programs declare the same functions, and define functions with the same prototypes. -/
structure Program.SameHeads (p q : Program) : Prop where
  declarations : q.declarations = p.declarations
  prototypes : q.functions.map Function.prototype = p.functions.map Function.prototype

namespace Program

variable {p q : Program} {n : ℕ} {f g : Function} {log log' out out' : Log}
  {types types' : Array Ty}

/-- The same functions are registered at each stage. -/
lemma SameHeads.setting (h : p.SameHeads q) {s t : Checker} (hs : p.checkedUpTo n log = .ok s)
    (ht : q.checkedUpTo n log' = .ok t) : s.setting = t.setting := by
  rw [setting_of_checkedUpTo hs, setting_of_checkedUpTo ht, registeredUpTo, registeredUpTo,
    List.map_take, List.map_take, h.declarations, h.prototypes]

lemma SameHeads.prototype (h : p.SameHeads q) (hf : p.functions[n]? = some f)
    (hg : q.functions[n]? = some g) : g.prototype = f.prototype := by
  have hmap := congrArg (·[n]?) h.prototypes
  simpa [hf, hg] using hmap

lemma lt_size_of_hasNumber (hcomplete : (p.body f).Complete) {i : NodeId}
    (hi : Tree.HasNumber [p.body f] i) : i < p.arena.size := by
  obtain ⟨u, hu, rfl⟩ := Tree.hasNumber_singleton_iff.mp hi
  exact Arena.lt_size_of_contains hcomplete hu

/-- The checking of functions enters nothing for a number that their bodies do not have. -/
lemma checkFunctions_types {fs : List Function} {s s' : Checker} {i : NodeId}
    (h : checkFunctions (fs.map fun f => (f.prototype, p.body f)) s = .ok ((), s'))
    (hi : ∀ f ∈ fs, ¬Tree.HasNumber [p.body f] i) : s'.types[i]? = s.types[i]? := by
  refine checkFunctions_types_of_notMem h fun b hb u hu hid => ?_
  obtain ⟨f, hf, rfl⟩ := List.mem_map.mp hb
  exact hi f hf (Tree.hasNumber_singleton_iff.mpr ⟨u, hu, hid⟩)

/-- The stage of a whole check at which a function is checked. Its entries are the first and the
last for the numbers of its body. -/
lemma exists_stage (hf : p.functions[n]? = some f) (hcomplete : (p.body f).Complete)
    (hapart : Tree.Apart (p.functions.map p.body)) (h : typeCheck p log = .ok (types, out)) :
    ∃ s s₁, p.checkedUpTo n log = .ok s ∧ checkFunction f.prototype (p.body f) s = .ok ((), s₁) ∧
      ∀ i, Tree.HasNumber [p.body f] i →
        s.types[i]? = some .invalid ∧ types[i]? = s₁.types[i]? := by
  obtain ⟨hn, rfl⟩ := List.getElem?_eq_some_iff.mp hf
  have hsplit : p.functions = p.functions.take n ++ p.functions[n] :: p.functions.drop (n + 1) := by
    rw [← List.drop_eq_getElem_cons hn, List.take_append_drop]
  set f := p.functions[n]
  obtain ⟨s', hprogram, rfl, rfl⟩ := typeCheck_eq_ok.mp h
  obtain ⟨_, s₀, hds, hfs⟩ := bind_eq_ok.mp hprogram
  obtain rfl := checkDeclarations_eq_ok.mp hds
  rw [hsplit, List.map_append, List.map_cons] at hfs
  rw [hsplit, List.map_append, List.map_cons, Tree.Apart, List.pairwise_append,
    List.pairwise_cons] at hapart
  obtain ⟨-, ⟨hlater, -⟩, hearlier⟩ := hapart
  obtain ⟨s, hbefore, hrest⟩ := checkFunctions_append_eq_ok.mp hfs
  obtain ⟨_, s₁, hchecked, hafter⟩ := bind_eq_ok.mp hrest
  refine ⟨s, s₁, ?_, hchecked, fun i hi => ⟨?_, ?_⟩⟩
  · rw [checkedUpTo_eq_ok, bodies, ← List.map_take]
    exact hbefore
  · rw [checkFunctions_types hbefore, types_declarations]
    · simp [Checker.start, lt_size_of_hasNumber hcomplete hi]
    · exact fun e he hi' => hearlier _ (List.mem_map_of_mem he) _ List.mem_cons_self i hi' hi
  · exact checkFunctions_types hafter fun e he => hlater _ (List.mem_map_of_mem he) i hi

/-- Whatever the other bodies are, the parts of a body get the same types. -/
lemma SameHeads.same_types (h : p.SameHeads q) (hf : p.functions[n]? = some f)
    (hg : q.functions[n]? = some g) {ρ : NodeId → NodeId}
    (hbody : q.body g = (p.body f).relabel (.ofNumbers ρ))
    (hinj : Set.InjOn ρ {i | Tree.HasNumber [p.body f] i}) (hcomplete : (p.body f).Complete)
    (hp : Tree.Apart (p.functions.map p.body)) (hq : Tree.Apart (q.functions.map q.body))
    (hrun : typeCheck p log = .ok (types, out)) (hrun' : typeCheck q log' = .ok (types', out'))
    {i : NodeId} (hi : Tree.HasNumber [p.body f] i) : types'[ρ i]? = types[i]? := by
  have hi' : Tree.HasNumber [q.body g] (ρ i) := by
    rw [hbody]
    exact hi.relabel
  have hcomplete' : (q.body g).Complete := hbody ▸ hcomplete.relabel _
  obtain ⟨s, s₁, hs, hchecked, hentries⟩ := exists_stage hf hcomplete hp hrun
  obtain ⟨t, t₁, ht, hchecked', hentries'⟩ := exists_stage hg hcomplete' hq hrun'
  rw [h.prototype hf hg, hbody] at hchecked'
  rw [(hentries i hi).2, (hentries' _ hi').2]
  refine checkFunction_types hinj (h.setting hs ht) hchecked hchecked' hi ?_
  rw [(hentries i hi).1, (hentries' _ hi').1]

/-! ### Further functions -/

/-- The program `q` is `p` with further functions at the end. -/
structure Continues (p q : Program) : Prop where
  arena : p.arena.Extends q.arena
  declarations : q.declarations = p.declarations
  functions : p.functions <+: q.functions

/-- In a longer program the earlier functions are checked as before, and then the others. -/
lemma Continues.exists_rest (h : p.Continues q)
    (hcomplete : ∀ f ∈ p.functions, (p.body f).Complete) :
    ∃ more, q.functions = p.functions ++ more ∧ ∀ s s', checkProgram q s = .ok ((), s') ↔
      ∃ s₁, checkProgram p s = .ok ((), s₁) ∧
        checkFunctions (more.map fun f => (f.prototype, q.body f)) s₁ = .ok ((), s') := by
  obtain ⟨more, hmore⟩ := h.functions
  have hbodies : q.bodies = p.bodies ++ more.map fun f => (f.prototype, q.body f) := by
    rw [bodies, ← hmore, List.map_append]
    refine congrArg (· ++ _) (List.map_congr_left fun f hf => ?_)
    exact congrArg (Prod.mk f.prototype) (h.arena.tree_eq (hcomplete f hf))
  refine ⟨more, hmore.symm, fun s s' => ?_⟩
  simp only [checkProgram_eq_ok, hbodies, h.declarations, checkFunctions_append_eq_ok]

/-- Further functions change nothing about the earlier ones: what is found in them comes first, and
their parts keep their types. -/
lemma Continues.typeCheck (h : p.Continues q)
    (hcomplete : ∀ f ∈ p.functions, (p.body f).Complete)
    (hapart : Tree.Apart (q.functions.map q.body))
    (hrun : Fern.typeCheck q log = .ok (types', out')) :
    ∃ types out, Fern.typeCheck p log = .ok (types, out) ∧ (∃ found, out' = out ++ found) ∧
      ∀ f ∈ p.functions, ∀ i, Tree.HasNumber [p.body f] i → types'[i]? = types[i]? := by
  obtain ⟨more, hmore, hrest⟩ := h.exists_rest hcomplete
  obtain ⟨s', hprogram, rfl, rfl⟩ := typeCheck_eq_ok.mp hrun
  obtain ⟨t, ht, hafter⟩ := (hrest _ _).mp hprogram
  obtain ⟨x, hx, hlabels⟩ := exists_traced_checkProgram p
  have hsame := hlabels fun l => l
  rw [p.relocate_same] at hsame
  rcases hx (Checker.start 0 .empty).setting with ⟨k, hfail⟩ | ⟨_, E, τ, -, hdone⟩
  · rw [hsame, hfail _ (.start q.arena.size log) rfl] at ht
    cases ht
  rw [hsame, hdone _ (.start q.arena.size log) rfl] at ht
  cases ht
  have hs := hdone (.ofPlaces fun l => l) (.start p.arena.size log) rfl
  rw [← hsame] at hs
  obtain ⟨found, hfound⟩ := checkFunctions_grown hafter
  refine ⟨_, _, typeCheck_eq_ok.mpr ⟨_, hs, rfl, rfl⟩, ⟨found, hfound⟩, ?_⟩
  intro f hf i hi
  have hlt := lt_size_of_hasNumber (hcomplete f hf) hi
  have hlt' := hlt.trans_le h.arena.size_le
  have hstart : (Checker.start q.arena.size log).types[i]?
      = (Checker.start p.arena.size log).types[i]? := by
    simp [Checker.start, hlt, hlt']
  have hinj : ∀ e ∈ (τ.relabel (.ofPlaces fun l => l)).entries, e.1 = i → e.1 = i :=
    fun _ _ h => h
  have hentries := getElem?_enter (f := fun i => i) hinj hstart
  refine Eq.trans ?_ ((congrArg (fun es => (enter es _)[i]?) (List.map_id' _).symm).trans hentries)
  rw [hmore, List.map_append, Tree.Apart, List.pairwise_append] at hapart
  have hf' : p.body f ∈ p.functions.map q.body :=
    List.mem_map.mpr ⟨f, hf, h.arena.tree_eq (hcomplete f hf)⟩
  exact checkFunctions_types hafter fun e he =>
    hapart.2.2 _ hf' _ (List.mem_map_of_mem he) i hi

end Program

/-- **Functions are checked separately.** Two programs that declare the same functions, and define
functions with the same prototypes, may have any bodies.
Where their `n`-th bodies are the same but for the numbers of their parts, the check of this
function finds the same in both, after whatever was found before.
Under the same one-to-one change of numbers its parts get the same types, if no two bodies share
numbers.
A program with further functions at the end is checked as before, and what is found in them comes
last.
A check goes through its stages, all of which are reached where no expression contains itself and
none is missing.
Bodies with numbers of their own that are the same without them are the same up to a one-to-one
change; those of a parsed program are of this sort. -/
theorem functions_checked_separately :
    (∀ (p q : Program) (n : ℕ) (f g : Function), p.SameHeads q →
      p.functions[n]? = some f → q.functions[n]? = some g →
      (p.body f).unnumbered = (q.body g).unnumbered →
      ∀ log log' s s₁ t, p.checkedUpTo n log = .ok s → p.checkedUpTo (n + 1) log = .ok s₁ →
        q.checkedUpTo n log' = .ok t →
        ∃ t₁ found, q.checkedUpTo (n + 1) log' = .ok t₁ ∧
          s₁.log = s.log ++ found ∧ t₁.log = t.log ++ found) ∧
    (∀ (p q : Program) (n : ℕ) (f g : Function) (ρ : NodeId → NodeId), p.SameHeads q →
      p.functions[n]? = some f → q.functions[n]? = some g →
      q.body g = (p.body f).relabel (.ofNumbers ρ) →
      Set.InjOn ρ {i | Tree.HasNumber [p.body f] i} → (p.body f).Complete →
      Tree.Apart (p.functions.map p.body) → Tree.Apart (q.functions.map q.body) →
      ∀ log log' types out types' out', typeCheck p log = .ok (types, out) →
        typeCheck q log' = .ok (types', out') →
        ∀ i, Tree.HasNumber [p.body f] i → types'[ρ i]? = types[i]?) ∧
    (∀ p q : Program, p.Continues q → (∀ f ∈ p.functions, (p.body f).Complete) →
      Tree.Apart (q.functions.map q.body) →
      ∀ log types' out', typeCheck q log = .ok (types', out') →
        ∃ types out, typeCheck p log = .ok (types, out) ∧ (∃ found, out' = out ++ found) ∧
          ∀ f ∈ p.functions, ∀ i, Tree.HasNumber [p.body f] i → types'[i]? = types[i]?) ∧
    (∀ (p : Program) (log : Log),
      typeCheck p log = (p.checkedUpTo p.functions.length log).map (fun s => (s.types, s.log)) ∧
        (p.arena.Acyclic →
          (∀ f ∈ p.functions, ∀ i, p.arena.Reaches f.body i → i < p.arena.size) →
          (∀ f ∈ p.functions, (p.body f).Complete) ∧ ∀ n, ∃ s, p.checkedUpTo n log = .ok s)) ∧
    (∀ p q : Program, Tree.Unshared (p.functions.map p.body) →
      Tree.Unshared (q.functions.map q.body) →
      Tree.Apart (p.functions.map p.body) ∧
        ∀ f ∈ p.functions, ∀ g ∈ q.functions, (p.body f).unnumbered = (q.body g).unnumbered →
          ∃ ρ, q.body g = (p.body f).relabel (.ofNumbers ρ) ∧
            Set.InjOn ρ {i | Tree.HasNumber [p.body f] i}) ∧
    ∀ (tokens : List Token) (log : Log) (p : Program), (parse tokens log).1 = some p →
      (∀ f ∈ p.functions, (p.body f).Complete) ∧ Tree.Unshared (p.functions.map p.body) := by
  refine ⟨?_, ?_, ?_, ?_, ?_, ?_⟩
  · intro p q n f g hheads hf hg hbody log log' s s₁ t hs hs₁ ht
    obtain ⟨s', hs', hchecked⟩ := (Program.checkedUpTo_succ hf).mp hs₁
    obtain rfl := Except.ok.inj (hs'.symm.trans hs)
    obtain ⟨t₁, found, ht₁, hfound, hfound'⟩ :=
      checkFunction_same hbody (hheads.setting hs ht) hchecked
    refine ⟨t₁, found, (Program.checkedUpTo_succ hg).mpr ⟨t, ht, ?_⟩, hfound, hfound'⟩
    rwa [hheads.prototype hf hg]
  · intro p q n f g ρ hheads hf hg hbody hinj hcomplete hp hq log log' types out types' out' hrun
      hrun' i hi
    exact hheads.same_types hf hg hbody hinj hcomplete hp hq hrun hrun' hi
  · intro p q hq hcomplete hapart log types' out' hrun
    exact hq.typeCheck hcomplete hapart hrun
  · intro p log
    refine ⟨typeCheck_eq_checkedUpTo p log, fun hacyclic hstored => ?_⟩
    have hcomplete : ∀ f ∈ p.functions, (p.body f).Complete :=
      fun f hf => Arena.complete_tree hacyclic (hstored f hf)
    exact ⟨hcomplete, fun n => exists_checkedUpTo hcomplete n log⟩
  · intro p q hp hq
    refine ⟨hp.apart, fun f hf g hg hbody => ?_⟩
    obtain ⟨ρ, hρ, hinj⟩ := (hp.singleton (List.mem_map_of_mem hf)).exists_renumbering
      (hq.singleton (List.mem_map_of_mem hg)) (congrArg (fun e => [e]) hbody)
    exact ⟨ρ, List.singleton_inj.mp hρ, hinj⟩
  · intro tokens log p hp
    obtain ⟨hstored, hlaid⟩ := Parsing.stored_of_parse hp
    exact ⟨fun f hf => (hstored f hf).complete, hlaid.unshared⟩

/-- The tokens of a function `f` on the first line, with the tokens `inner` in its body. -/
def firstTokens (inner : List Token) : List Token :=
  [⟨.funcWord, "func", ⟨0, 0⟩⟩, ⟨.ident, "f", ⟨0, 5⟩⟩, ⟨.leftParen, "(", ⟨0, 6⟩⟩,
      ⟨.rightParen, ")", ⟨0, 7⟩⟩, ⟨.leftBrace, "\x7b", ⟨0, 9⟩⟩]
    ++ inner ++ [⟨.rightBrace, "\x7d", ⟨0, 17⟩⟩]

/-- The tokens of `func f() { 1 }`. -/
def numberTokens : List Token := firstTokens [⟨.integer, "1", ⟨0, 11⟩⟩]

/-- The tokens of `func f() { x + 1 }`. -/
def unknownTokens : List Token :=
  firstTokens [⟨.ident, "x", ⟨0, 11⟩⟩, ⟨.plus, "+", ⟨0, 13⟩⟩, ⟨.integer, "1", ⟨0, 15⟩⟩]

/-- The tokens of `func g(x: int) { x + true }` on the second line. -/
def sumTokens : List Token :=
  [⟨.funcWord, "func", ⟨1, 0⟩⟩, ⟨.ident, "g", ⟨1, 5⟩⟩, ⟨.leftParen, "(", ⟨1, 6⟩⟩,
    ⟨.ident, "x", ⟨1, 7⟩⟩, ⟨.colon, ":", ⟨1, 8⟩⟩, ⟨.ident, "int", ⟨1, 10⟩⟩,
    ⟨.rightParen, ")", ⟨1, 13⟩⟩, ⟨.leftBrace, "\x7b", ⟨1, 15⟩⟩, ⟨.ident, "x", ⟨1, 17⟩⟩,
    ⟨.plus, "+", ⟨1, 19⟩⟩, ⟨.trueWord, "true", ⟨1, 21⟩⟩, ⟨.rightBrace, "\x7d", ⟨1, 26⟩⟩]

/-- The function `f` with the number of its body. -/
def firstFunction (body : NodeId) : Function := ⟨⟨"f", [], .void, ⟨0, 5⟩⟩, body⟩

/-- The function `g` with the number of its body. -/
def sumFunction (body : NodeId) : Function := ⟨⟨"g", [⟨"x", .int, ⟨1, 7⟩⟩], .void, ⟨1, 5⟩⟩, body⟩

/-- The program of `numberTokens`. -/
def numberProgram : Program where
  arena := (Arena.empty.add (.number "1" false) ⟨0, 11⟩).add (.block [0]) ⟨0, 9⟩
  functions := [firstFunction 1]

/-- The program of `numberTokens` and `sumTokens`. -/
def numberSumProgram : Program where
  arena := (((numberProgram.arena.add (.var "x") ⟨1, 17⟩).add (.boolean true) ⟨1, 21⟩).add
    (.binary .plus 2 3) ⟨1, 19⟩).add (.block [4]) ⟨1, 15⟩
  functions := [firstFunction 1, sumFunction 5]

/-- The program of `unknownTokens` and `sumTokens`. There is an error in each of its functions. -/
def unknownSumProgram : Program where
  arena := ⟨#[⟨.var "x", ⟨0, 11⟩⟩, ⟨.number "1" false, ⟨0, 15⟩⟩, ⟨.binary .plus 0 1, ⟨0, 13⟩⟩,
    ⟨.block [2], ⟨0, 9⟩⟩, ⟨.var "x", ⟨1, 17⟩⟩, ⟨.boolean true, ⟨1, 21⟩⟩,
    ⟨.binary .plus 4 5, ⟨1, 19⟩⟩, ⟨.block [6], ⟨1, 15⟩⟩]⟩
  functions := [firstFunction 3, sumFunction 7]

lemma continues_numberSumProgram : numberProgram.Continues numberSumProgram where
  arena := (((Arena.extends_add _ _ _).trans (Arena.extends_add _ _ _)).trans
    (Arena.extends_add _ _ _)).trans (Arena.extends_add _ _ _)
  declarations := rfl
  functions := ⟨[sumFunction 5], rfl⟩

/-- The function `g` is checked alike after two different functions `f`, and `f` alike before it. -/
theorem sum_checked_separately :
    ((parse (numberTokens ++ sumTokens) {}).1 = some numberSumProgram ∧
      (parse (unknownTokens ++ sumTokens) {}).1 = some unknownSumProgram ∧
      numberSumProgram.SameHeads unknownSumProgram) ∧
    (∃ s s₁ t t₁ found, numberSumProgram.checkedUpTo 1 {} = .ok s ∧
      numberSumProgram.checkedUpTo 2 {} = .ok s₁ ∧ unknownSumProgram.checkedUpTo 1 {} = .ok t ∧
      unknownSumProgram.checkedUpTo 2 {} = .ok t₁ ∧ s.log ≠ t.log ∧ found ≠ .empty ∧
      s₁.log = s.log ++ found ∧ t₁.log = t.log ++ found) ∧
    (∃ ρ : NodeId → NodeId, ρ 5 ≠ 5 ∧ ∃ types out types' out',
      typeCheck numberSumProgram {} = .ok (types, out) ∧
      typeCheck unknownSumProgram {} = .ok (types', out') ∧
      ∀ i, Tree.HasNumber [numberSumProgram.body (sumFunction 5)] i → types'[ρ i]? = types[i]?) ∧
    ∃ types out types' out' found, typeCheck numberProgram {} = .ok (types, out) ∧
      typeCheck numberSumProgram {} = .ok (types', out') ∧ out' = out ++ found ∧ found ≠ .empty ∧
      ∀ i, Tree.HasNumber [numberProgram.body (firstFunction 1)] i → types'[i]? = types[i]? := by
  have hnumber : (parse numberTokens {}).1 = some numberProgram := by decide +kernel
  have hp : (parse (numberTokens ++ sumTokens) {}).1 = some numberSumProgram := by decide +kernel
  have hq : (parse (unknownTokens ++ sumTokens) {}).1 = some unknownSumProgram := by
    decide +kernel
  have hheads : numberSumProgram.SameHeads unknownSumProgram := ⟨rfl, rfl⟩
  obtain ⟨hfound, htypes, hlonger, -, hunshared, hparsed⟩ := functions_checked_separately
  obtain ⟨hpcomplete, hpunshared⟩ := hparsed _ _ _ hp
  obtain ⟨-, hqunshared⟩ := hparsed _ _ _ hq
  obtain ⟨hpapart, hrenumbered⟩ := hunshared _ _ hpunshared hqunshared
  obtain ⟨hqapart, -⟩ := hunshared _ _ hqunshared hpunshared
  have hbody : (numberSumProgram.body (sumFunction 5)).unnumbered
      = (unknownSumProgram.body (sumFunction 7)).unnumbered := rfl
  refine ⟨⟨hp, hq, hheads⟩, ?_, ?_, ?_⟩
  · obtain ⟨t₁, found, ht₁, hs₁, hlog⟩ := hfound numberSumProgram unknownSumProgram 1
      (sumFunction 5) (sumFunction 7) hheads rfl rfl hbody {} {} _ _ _ rfl rfl rfl
    refine ⟨_, _, _, t₁, found, rfl, rfl, rfl, ht₁, by decide, ?_, hs₁, hlog⟩
    rintro rfl
    revert hs₁
    decide
  · obtain ⟨ρ, hρ, hinj⟩ :=
      hrenumbered (sumFunction 5) (by decide) (sumFunction 7) (by decide) hbody
    have hmoved : ρ 5 = 7 := (congrArg Tree.id hρ).symm
    refine ⟨ρ, by rw [hmoved]; decide, _, _, _, _, rfl, rfl, ?_⟩
    exact htypes _ _ 1 _ _ ρ hheads rfl rfl hρ hinj (hpcomplete _ (by decide)) hpapart hqapart
      {} {} _ _ _ _ rfl rfl
  · obtain ⟨types, out, hrun, ⟨found, hlog⟩, hsame⟩ := hlonger _ _ continues_numberSumProgram
      (hparsed _ _ _ hnumber).1 hpapart {} _ _ rfl
    refine ⟨types, out, _, _, found, hrun, rfl, hlog, ?_, hsame _ List.mem_cons_self⟩
    cases hrun
    rintro rfl
    revert hlog
    decide

end Fern
