import Mathlib.Tactic
import Fern.Proofs.Parsing.Findings
import Fern.Proofs.Parsing.Language
import Fern.Proofs.Typing.Acceptance

/-!
Where the checker reports what it finds.

* `judge_log_liesIn`: on an expression with parts at places of a given sort, only such places are
  reported.
* `Arena.Stores.location_of_contains`: the parts of a stored expression are where their nodes are.
* `liesIn_of_typeCheck`: a check of a program reports the places of its expressions and functions.
-/

namespace Fern

/-- A part of a stored expression is at the place of a node. -/
lemma Arena.Stores.location_of_contains {P : Location → Prop} {a : Arena} {t u : Tree}
    (h : a.Stores t) (ha : ∀ node ∈ a.nodes, P node.location) (hu : t.Contains u) :
    P u.location := by
  cases h.contains hu with
  | node found _ _ => exact ha _ (Array.mem_of_getElem? found)

namespace Typing

variable {P : Location → Prop} {s s' : Checker}

lemma log_complained_liesIn (h : s.log.LiesIn P) {c : Option Complaint} (hc : PointsInto P c) :
    (s.complained c).log.LiesIn P := by
  cases c with
  | none => exact h
  | some c =>
      obtain ⟨d, hplace, hd⟩ := c.exists_record s.log
      have hrecorded : (s.log.record d).LiesIn P := h.record (hplace ▸ hc c rfl)
      rwa [← hd] at hrecorded

/-- A run on an expression reports places of its parts only. -/
lemma judge_log_liesIn {e : Tree} {t : Ty} (he : ∀ u, e.Contains u → P u.location)
    (h : judge e s = .ok (t, s')) : s.log.LiesIn P → s'.log.LiesIn P := by
  have hstep : Stepwise Any P fun s s' => s.log.LiesIn P → s'.log.LiesIn P :=
    { refl := fun _ hs => hs
      trans := fun h h' hs => h' (h hs)
      typed := fun _ _ _ hs => hs
      complained := fun hc _ hs => log_complained_liesIn hs hc
      bound := fun _ _ _ hs => hs
      warned := fun hl b s hs => by
        cases b with
        | false => exact hs
        | true =>
            refine ⟨hs.errors, fun d hd => ?_⟩
            rcases List.mem_append.mp hd with hd | hd
            · exact hs.warnings d hd
            · exact List.mem_singleton.mp hd ▸ hl
      block := fun h hs => h hs }
  exact judge_stepwise hstep e (fun u hu => ⟨trivial, he u hu⟩) s t s' h

lemma log_registered_liesIn {p : Prototype} (hp : P p.location) (h : s.log.LiesIn P) :
    (s.registered p).log.LiesIn P :=
  log_complained_liesIn h (pointsInto_complainIf hp)

lemma log_declarations_liesIn {ds : List Prototype} (hds : ∀ p ∈ ds, P p.location)
    (h : s.log.LiesIn P) : (ds.foldl Checker.registered s).log.LiesIn P := by
  induction ds generalizing s with
  | nil => exact h
  | cons d ds ih =>
      exact ih (fun p hp => hds p (.tail _ hp)) (log_registered_liesIn (hds d (.head _)) h)

lemma checkFunctions_log_liesIn {fs : List (Prototype × Tree)}
    (hfs : ∀ f ∈ fs, P f.1.location ∧ ∀ u, f.2.Contains u → P u.location)
    (h : checkFunctions fs s = .ok ((), s')) (hs : s.log.LiesIn P) : s'.log.LiesIn P := by
  induction fs generalizing s with
  | nil =>
      obtain ⟨-, rfl⟩ := pure_eq_ok.mp h
      exact hs
  | cons f fs ih =>
      obtain ⟨_, s₁, hf, hrest⟩ := bind_eq_ok.mp h
      obtain ⟨t, s₂, hbody, rfl⟩ := checkFunction_eq_ok.mp hf
      obtain ⟨hname, hparts⟩ := hfs f (.head _)
      have hbody' := judge_log_liesIn hparts hbody (log_registered_liesIn hname hs)
      exact ih (fun g hg => hfs g (.tail _ hg)) hrest hbody'

end Typing

open Typing

/-- **Findings of the checker.** What is recorded in a check of a program with stored bodies is at
the place of an expression or of the name of a function. -/
lemma liesIn_of_typeCheck {P : Location → Prop} {p : Program} {log out : Log} {types : Array Ty}
    (hp : p.LiesIn P) (hstored : ∀ f ∈ p.functions, p.arena.Stores (p.body f))
    (h : typeCheck p log = .ok (types, out)) (hlog : log.LiesIn P) : out.LiesIn P := by
  obtain ⟨s', hprogram, -, rfl⟩ := typeCheck_eq_ok.mp h
  obtain ⟨_, s₀, hds, hfs⟩ := bind_eq_ok.mp hprogram
  obtain rfl := checkDeclarations_eq_ok.mp hds
  have hdeclared := log_declarations_liesIn (s := .start p.arena.size log) hp.declarations hlog
  refine checkFunctions_log_liesIn (fun f hf => ?_) hfs hdeclared
  obtain ⟨g, hg, rfl⟩ := List.mem_map.mp hf
  exact ⟨hp.functions g hg, fun u hu => (hstored g hg).location_of_contains hp.arena hu⟩

end Fern
