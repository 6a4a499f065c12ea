import Fern.Proofs.Typing.Checks
import Fern.Proofs.Typing.Stages

/-!
The errors of a check of a program.

* `Program.Judges`: while a function of a program is checked, a part of its body is judged in a
  given state.
* `Complains.isRedeclaration`: no check of an expression complains of the name of a function.
* `redeclared`: the functions with the name of an earlier one.
* `Program.exists_found_checkedUpTo`, `Program.exists_found_typeCheck`: **the errors of a check**
  are one for each redeclared function, and those of the checks in the bodies.
-/

namespace Fern

/-- The problem is that the name of a function is taken. -/
def Problem.isRedeclaration : Problem → Bool
  | .duplicateFunction _ => true
  | _ => false

namespace Typing

/-! ### What the checks of expressions complain of -/

section Problems

variable {a b : Ty} {l l' : Location} {k : Complaint}

lemma complainIf_eq_some {c : Bool} {p : Problem} {note : Option String}
    (h : complainIf c p l note = some k) : k = ⟨p, l, note⟩ :=
  (complainIf_eq_some_iff.mp h).2

lemma isRedeclaration_ofBinary {operator : Token.Kind} {target : String}
    (h : (ofBinary operator target a b l).complaint = some k) :
    k.problem.isRedeclaration = false := by
  unfold ofBinary at h
  split_ifs at h
  · rw [complainIf_eq_some h]
    rfl
  · rw [complainIf_eq_some h]
    rfl
  · unfold ofArithmetic at h
    split_ifs at h
    · cases h
    all_goals
      rw [complainIf_eq_some h]
      rfl
  · cases h
    rfl

lemma isRedeclaration_ofUnary {operator : Token.Kind}
    (h : (ofUnary operator a l).complaint = some k) : k.problem.isRedeclaration = false := by
  unfold ofUnary at h
  split at h
  · cases h
  · split at h
    · split_ifs at h <;> cases h
      rfl
    · split_ifs at h <;> cases h
      rfl
    · cases h
      rfl

lemma isRedeclaration_ofReturn {declared : Option Ty}
    (h : (ofReturn declared a l).complaint = some k) : k.problem.isRedeclaration = false := by
  cases declared with
  | none =>
      cases h
      rfl
  | some _ =>
      rw [complainIf_eq_some h]
      rfl

lemma isRedeclaration_ofSubscript (h : (ofSubscript a b l l').complaint = some k) :
    k.problem.isRedeclaration = false := by
  unfold ofSubscript at h
  split_ifs at h <;> cases h
  all_goals rfl

/-- No check of an expression complains of the name of a function. -/
lemma Complains.isRedeclaration {e : Tree} {s : Checker} (h : Complains e s k) :
    k.problem.isRedeclaration = false := by
  cases h with
  | unknownVariable => rfl
  | @stated _ _ _ stated _ _ _ _ _ _ h =>
      cases stated with
      | none => cases h
      | some u => rw [complainIf_eq_some h]; rfl
  | duplicate _ h => rw [complainIf_eq_some h]; rfl
  | condition _ h => rw [complainIf_eq_some h]; rfl
  | arms _ _ _ h => rw [complainIf_eq_some h]; rfl
  | binary _ _ h => exact isRedeclaration_ofBinary h
  | unary _ h => exact isRedeclaration_ofUnary h
  | bareReturn h => exact isRedeclaration_ofReturn h
  | valueReturn _ h => exact isRedeclaration_ofReturn h
  | loopJump => rfl
  | unknownFunction => rfl
  | argumentCount => rfl
  | argument _ _ _ _ h => rw [complainIf_eq_some h]; rfl
  | subscript _ _ h => exact isRedeclaration_ofSubscript h

end Problems

/-! ### Redeclared functions -/

/-- The prototypes, in order, with a name that one before them has. -/
def redeclared (ps : List Prototype) : List Prototype :=
  (List.range ps.length).filterMap fun i =>
    ps[i]?.filter fun q => q.name ∈ (ps.take i).map Prototype.name

/-- The error about a redeclared function. -/
def redeclaration (q : Prototype) : Diagnostic := .error (.duplicateFunction q.name) q.location

lemma redeclared_append (ps : List Prototype) (q : Prototype) :
    redeclared (ps ++ [q])
      = redeclared ps ++ if q.name ∈ ps.map Prototype.name then [q] else [] := by
  have hearlier : ∀ i ∈ List.range ps.length,
      ((ps ++ [q])[i]?.filter fun r => r.name ∈ ((ps ++ [q]).take i).map Prototype.name)
        = ps[i]?.filter fun r => r.name ∈ (ps.take i).map Prototype.name := by
    intro i hi
    have hlt := List.mem_range.mp hi
    rw [List.getElem?_append_left hlt, List.take_append_of_le_length hlt.le]
  have hlast : ((ps ++ [q])[ps.length]?.filter fun r =>
      r.name ∈ ((ps ++ [q]).take ps.length).map Prototype.name)
        = if q.name ∈ ps.map Prototype.name then some q else none := by
    rw [List.getElem?_concat_length, List.take_left, Option.filter_some]
    simp only [decide_eq_true_eq]
  rw [redeclared, List.length_append, List.length_singleton, List.range_succ,
    List.filterMap_append, List.filterMap_congr hearlier]
  simp only [List.filterMap_cons, hlast, List.filterMap_nil]
  split_ifs <;> rfl

/-- No function is redeclared exactly if the names are distinct. -/
lemma redeclared_eq_nil_iff {ps : List Prototype} :
    redeclared ps = [] ↔ (ps.map Prototype.name).Nodup := by
  induction ps using List.reverseRecOn with
  | nil => simp [redeclared]
  | append_singleton ps q ih =>
      rw [redeclared_append, List.append_eq_nil_iff, ih, nodup_names_append, and_comm]
      refine and_congr_left fun _ => ?_
      split_ifs with hq <;> simp [hq]

/-- The registration of a function records an error exactly if its name is taken. -/
lemma errors_registered {ps : List Prototype} {s : Checker}
    (h : s.signatures = ps.foldl withSignature []) (q : Prototype) :
    (s.registered q).log.errors
      = s.log.errors ++ if q.name ∈ ps.map Prototype.name then [redeclaration q] else [] := by
  have htaken : (s.signatures.find? q.name).isSome = decide (q.name ∈ ps.map Prototype.name) := by
    rw [h, find?_foldl_withSignature, Option.isSome_map, Bool.eq_iff_iff, isSome_lastNamed,
      decide_eq_true_iff]
  show (s.complained (s.taken q)).log.errors = _
  rw [Checker.taken, htaken]
  by_cases hq : q.name ∈ ps.map Prototype.name
  · rw [decide_eq_true hq, if_pos hq]
    exact s.errors_complained _
  · rw [decide_eq_false hq, if_neg hq, List.append_nil]
    rfl

/-- The registration of declared functions records an error for each redeclared one. -/
lemma errors_declarations {s : Checker} (hs : s.signatures = []) (ds : List Prototype) :
    (ds.foldl Checker.registered s).log.errors
      = s.log.errors ++ (redeclared ds).map redeclaration := by
  induction ds using List.reverseRecOn with
  | nil => exact (List.append_nil _).symm
  | append_singleton ds q ih =>
      have hsignatures : (ds.foldl Checker.registered s).signatures
          = ds.foldl withSignature [] := by
        rw [← hs]
        exact congrArg Setting.signatures (setting_declarations ds s)
      rw [List.foldl_append, List.foldl_cons, List.foldl_nil, errors_registered hsignatures, ih,
        redeclared_append, List.map_append, List.append_assoc]
      split_ifs <;> rfl

/-- The check of a function records an error if its name is taken, and then the errors of the checks
of its body. -/
lemma errors_checkFunction {ps : List Prototype} {q : Prototype} {body : Tree} {s s' : Checker}
    (hs : s.signatures = ps.foldl withSignature [])
    (h : checkFunction q body s = .ok ((), s')) :
    ∃ found, s'.log.errors = s.log.errors
        ++ (if q.name ∈ ps.map Prototype.name then [redeclaration q] else []) ++ found ∧
      ∀ d, d ∈ found ↔ Reported body (s.entered q) d := by
  obtain ⟨t, s₁, hbody, rfl⟩ := checkFunction_eq_ok.mp h
  obtain ⟨found, herrors, hfound⟩ := errors_of_judge hbody
  refine ⟨found, ?_, hfound⟩
  rw [← errors_registered hs]
  exact herrors

end Typing

open Typing

/-! ### The errors up to a function -/

namespace Program

variable {p : Program} {n : ℕ} {log : Log} {s : Checker}

/-- While the `n`-th function of a program is checked, an expression is judged in the state `r`. -/
def Judges (p : Program) (log : Log) (n : ℕ) (u : Tree) (r : Checker) : Prop :=
  ∃ f s, p.functions[n]? = some f ∧ p.checkedUpTo n log = .ok s ∧
    Visits (p.body f) (s.entered f.prototype) u r

lemma Judges.lt_length {u : Tree} {r : Checker} (h : p.Judges log n u r) :
    n < p.functions.length := by
  obtain ⟨f, s, hf, -⟩ := h
  exact (List.getElem?_eq_some_iff.mp hf).1

/-- An error is that of a check in the body of one of the first `n` functions, with the note of this
check if it has one. -/
def ReportedUpTo (p : Program) (log : Log) (n : ℕ) (d : Diagnostic) : Prop :=
  ∃ m < n, ∃ u r c, p.Judges log m u r ∧ Complains u r c ∧ d = c.diagnostic

lemma reportedUpTo_succ {f : Function} (hf : p.functions[n]? = some f)
    (hs : p.checkedUpTo n log = .ok s) (d : Diagnostic) :
    p.ReportedUpTo log (n + 1) d ↔
      p.ReportedUpTo log n d ∨ Reported (p.body f) (s.entered f.prototype) d := by
  constructor
  · rintro ⟨m, hm, u, r, c, hjudges, hc, rfl⟩
    rcases Nat.lt_succ_iff_lt_or_eq.mp hm with hm | rfl
    · exact .inl ⟨m, hm, u, r, c, hjudges, hc, rfl⟩
    · obtain ⟨g, s', hg, hs', hvisits⟩ := hjudges
      cases hf.symm.trans hg
      cases hs.symm.trans hs'
      exact .inr ⟨u, r, c, hvisits, hc, rfl⟩
  · rintro (⟨m, hm, hrest⟩ | ⟨u, r, c, hvisits, hc, rfl⟩)
    · exact ⟨m, hm.trans n.lt_succ_self, hrest⟩
    · exact ⟨n, n.lt_succ_self, u, r, c, ⟨f, s, hf, hs, hvisits⟩, hc, rfl⟩

/-- **Errors up to a function.** Up to a function an error is recorded for each redeclared one, and
besides these only the errors of the checks in the bodies. -/
lemma exists_found_checkedUpTo (hn : n ≤ p.functions.length) (h : p.checkedUpTo n log = .ok s) :
    ∃ found, s.log.errors = log.errors ++ found ∧
      found.filter (·.problem.isRedeclaration)
        = (redeclared (p.registeredUpTo n)).map redeclaration ∧
      ∀ d, d ∈ found ↔
        d ∈ (redeclared (p.registeredUpTo n)).map redeclaration ∨ p.ReportedUpTo log n d := by
  induction n generalizing s with
  | zero =>
      have hs : s = p.declared log := by
        have hnil := Program.checkedUpTo_eq_ok.mp h
        rw [List.take_zero] at hnil
        exact (pure_eq_ok.mp hnil).2
      have hdeclared : p.registeredUpTo 0 = p.declarations := List.append_nil _
      subst hs
      rw [hdeclared]
      refine ⟨_, errors_declarations rfl p.declarations, ?_, fun d => ?_⟩
      · refine List.filter_eq_self.mpr fun d hd => ?_
        obtain ⟨q, -, rfl⟩ := List.mem_map.mp hd
        rfl
      · exact ⟨.inl, fun hd => hd.elim id fun ⟨m, hm, _⟩ => absurd hm m.not_lt_zero⟩
  | succ n ih =>
      have hf : p.functions[n]? = some p.functions[n] := List.getElem?_eq_getElem hn
      obtain ⟨s₀, hs₀, hchecked⟩ := (Program.checkedUpTo_succ hf).mp h
      obtain ⟨found, herrors, hfilter, hfound⟩ := ih (Nat.le_of_succ_le hn) hs₀
      obtain ⟨more, hmore, hreported⟩ :=
        errors_checkFunction (signatures_of_checkedUpTo hs₀) hchecked
      set own := if p.functions[n].prototype.name ∈ (p.registeredUpTo n).map Prototype.name
        then [redeclaration p.functions[n].prototype] else [] with hown
      have hredeclared : (redeclared (p.registeredUpTo (n + 1))).map redeclaration
          = (redeclared (p.registeredUpTo n)).map redeclaration ++ own := by
        rw [registeredUpTo_succ hf, redeclared_append, List.map_append, hown]
        split_ifs <;> rfl
      refine ⟨found ++ own ++ more, ?_, ?_, fun d => ?_⟩
      · rw [hmore, herrors, List.append_assoc, List.append_assoc, List.append_assoc]
      · have hnone : more.filter (·.problem.isRedeclaration) = [] := by
          refine List.filter_eq_nil_iff.mpr fun d hd => ?_
          obtain ⟨u, r, c, -, hc, rfl⟩ := (hreported d).mp hd
          exact Bool.eq_false_iff.mp hc.isRedeclaration
        have hself : own.filter (·.problem.isRedeclaration) = own := by
          refine List.filter_eq_self.mpr fun d hd => ?_
          rw [hown] at hd
          split_ifs at hd
          · exact List.mem_singleton.mp hd ▸ rfl
          · cases hd
        rw [List.filter_append, List.filter_append, hfilter, hself, hnone, List.append_nil,
          hredeclared]
      · rw [reportedUpTo_succ hf hs₀, hredeclared, List.mem_append, List.mem_append, hfound,
          hreported, List.mem_append]
        tauto

/-- **Errors of a check.** A check records an error for each redeclared function, and besides these
only the errors of the checks in the bodies, each with the note of its own check. -/
lemma exists_found_typeCheck {out : Log} {types : Array Ty}
    (h : typeCheck p log = .ok (types, out)) :
    ∃ found, out.errors = log.errors ++ found ∧
      found.filter (·.problem.isRedeclaration) = (redeclared p.prototypes).map redeclaration ∧
      ∀ d, d ∈ found ↔ d ∈ (redeclared p.prototypes).map redeclaration ∨
        ∃ n u r c, p.Judges log n u r ∧ Complains u r c ∧ d = c.diagnostic := by
  obtain ⟨s, hs, rfl, rfl⟩ := exists_checkedUpTo_of_typeCheck h
  obtain ⟨found, herrors, hfilter, hfound⟩ := exists_found_checkedUpTo le_rfl hs
  rw [p.registeredUpTo_length] at hfilter hfound
  refine ⟨found, herrors, hfilter, fun d => (hfound d).trans (or_congr_right ⟨?_, ?_⟩)⟩
  · rintro ⟨n, -, u, r, c, hd⟩
    exact ⟨n, u, r, c, hd⟩
  · rintro ⟨n, u, r, c, hjudges, hd⟩
    exact ⟨n, hjudges.lt_length, u, r, c, hjudges, hd⟩

end Program

end Fern
