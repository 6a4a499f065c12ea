import Mathlib.Tactic
import Fern.Scope

/-!
Scopes after any sequence of steps, told from the sequence alone.

* `Step`, `after`: what can be done with scopes, and the scopes after a sequence of steps.
* `StaysOpen`, `Balanced`: steps that leave the scope open in which they begin, and those that end
  in it.
* `openings`: the steps after each push that no later pop undoes. `received`: the values that a name
  gets in the scope in which some steps begin.
* `Agrees`: open scopes have the names that they received; `agrees_after` is the induction on the
  steps.
* `scopes_after_steps`: **depth and look-ups after any steps**, and that balanced steps in a scope
  of their own leave all scopes as they were.
-/

namespace Fern.Scopes

variable {α : Type}

/-- What can be done with scopes. -/
inductive Step (α : Type) where
  | push
  | pop
  | bind (name : String) (a : α)
  | lookup (name : String)
  | localLookup (name : String)
deriving Repr, DecidableEq

namespace Step

/-- The scopes after a step. Looking a name up leaves them as they are. -/
def apply : Step α → Scopes α → Scopes α
  | push, s => s.push
  | pop, s => s.pop
  | bind name a, s => s.bind name a
  | lookup _, s | localLookup _, s => s

/-- Whether a step opens a scope. -/
@[simp]
def isPush : Step α → Bool
  | push => true
  | _ => false

/-- Whether a step closes a scope. -/
@[simp]
def isPop : Step α → Bool
  | pop => true
  | _ => false

/-- The value that a step binds to a name. -/
def value? (name : String) : Step α → Option α
  | bind n a => if n = name then some a else none
  | _ => none

end Step

/-- The scopes after some steps. -/
def after (steps : List (Step α)) (s : Scopes α) : Scopes α :=
  steps.foldl (fun s step => step.apply s) s

/-! ### What a sequence says of itself -/

/-- The number of scopes that are opened. -/
def pushes (steps : List (Step α)) : ℕ := steps.countP Step.isPush

/-- The number of times that a scope is to be closed. -/
def pops (steps : List (Step α)) : ℕ := steps.countP Step.isPop

/-- No pop closes the scope in which the steps begin: every prefix has at most as many pops as
pushes. -/
def StaysOpen (steps : List (Step α)) : Prop :=
  ∀ before, before <+: steps → pops before ≤ pushes before

/-- The steps end in the scope in which they begin. -/
def Balanced (steps : List (Step α)) : Prop := StaysOpen steps ∧ pops steps = pushes steps

instance (steps : List (Step α)) : Decidable (StaysOpen steps) :=
  decidable_of_iff (∀ before ∈ steps.inits, pops before ≤ pushes before) (by
    simp only [List.mem_inits, StaysOpen])

instance (steps : List (Step α)) : Decidable (Balanced steps) :=
  inferInstanceAs (Decidable (_ ∧ _))

/-- The steps after each push that no later pop undoes, from the first of these pushes to the last.
-/
def openings : List (Step α) → List (List (Step α))
  | [] => []
  | .push :: steps => if StaysOpen steps then steps :: openings steps else openings steps
  | _ :: steps => openings steps

/-- The values that a name gets in the scope in which the steps begin, in order: those bound after
balanced steps. -/
def received (name : String) (steps : List (Step α)) : List α :=
  (List.range steps.length).filterMap fun i =>
    if Balanced (steps.take i) then steps[i]?.bind (Step.value? name) else none

section Sequences

variable {steps : List (Step α)} {step : Step α}

@[simp] lemma pushes_append (steps others : List (Step α)) :
    pushes (steps ++ others) = pushes steps + pushes others := List.countP_append

@[simp] lemma pops_append (steps others : List (Step α)) :
    pops (steps ++ others) = pops steps + pops others := List.countP_append

@[simp] lemma pushes_cons (step : Step α) (steps : List (Step α)) :
    pushes (step :: steps) = pushes steps + if step.isPush then 1 else 0 := List.countP_cons ..

@[simp] lemma pops_cons (step : Step α) (steps : List (Step α)) :
    pops (step :: steps) = pops steps + if step.isPop then 1 else 0 := List.countP_cons ..

@[simp] lemma pushes_nil : pushes ([] : List (Step α)) = 0 := rfl

@[simp] lemma pops_nil : pops ([] : List (Step α)) = 0 := rfl

lemma staysOpen_nil : StaysOpen ([] : List (Step α)) := by
  intro before hbefore
  rw [List.prefix_nil.mp hbefore]
  exact le_rfl

lemma staysOpen_append_singleton :
    StaysOpen (steps ++ [step]) ↔
      StaysOpen steps ∧ pops (steps ++ [step]) ≤ pushes (steps ++ [step]) := by
  simp only [StaysOpen, List.prefix_concat_iff, or_imp, forall_and, forall_eq]
  exact and_comm

/-- One more step closes the scope in which the steps begin only if it is a pop and they end in that
scope. -/
lemma StaysOpen.append_singleton (h : StaysOpen steps)
    (hstep : step.isPop → pops steps < pushes steps) : StaysOpen (steps ++ [step]) := by
  have hle := h steps List.prefix_rfl
  refine staysOpen_append_singleton.mpr ⟨h, ?_⟩
  cases step with
  | pop => simpa using hstep rfl
  | _ => simp; omega

/-- The pops that undo no push among the steps. -/
def overdrawn : List (Step α) → ℕ
  | [] => 0
  | .push :: steps => overdrawn steps - 1
  | .pop :: steps => overdrawn steps + 1
  | _ :: steps => overdrawn steps

lemma overdrawn_le_iff {k : ℕ} :
    overdrawn steps ≤ k ↔ ∀ before, before <+: steps → pops before ≤ pushes before + k := by
  induction steps generalizing k with
  | nil => simp [overdrawn, List.prefix_nil]
  | cons step steps ih =>
      have hcons : (∀ before, before <+: step :: steps → pops before ≤ pushes before + k) ↔
          ∀ before, before <+: steps → pops (step :: before) ≤ pushes (step :: before) + k := by
        simp only [List.prefix_cons_iff, or_imp, forall_and, forall_eq, pops_nil, zero_le, true_and]
        exact ⟨fun h before hbefore => h _ ⟨before, rfl, hbefore⟩,
          fun h _ ⟨before, heq, hbefore⟩ => heq ▸ h before hbefore⟩
      rw [hcons]
      cases step with
      | push =>
          rw [overdrawn, Nat.sub_le_iff_le_add, ih]
          simp [Nat.add_right_comm, Nat.add_assoc]
      | pop =>
          cases k with
          | zero =>
              simp only [overdrawn, Nat.add_eq_zero_iff, Nat.le_zero, one_ne_zero, and_false,
                false_iff]
              exact fun h => by simpa using h [] List.nil_prefix
          | succ k =>
              rw [overdrawn, Nat.add_le_add_iff_right, ih]
              simp [← Nat.add_assoc]
      | _ => simp [overdrawn, ih]

lemma staysOpen_iff : StaysOpen steps ↔ overdrawn steps = 0 :=
  overdrawn_le_iff.symm.trans Nat.le_zero

/-- Each push is undone or leaves a scope open, and so is each pop that undoes one. -/
lemma length_openings (steps : List (Step α)) :
    (openings steps).length + pops steps = pushes steps + overdrawn steps := by
  induction steps with
  | nil => rfl
  | cons step steps ih =>
      cases step with
      | push =>
          by_cases h : overdrawn steps = 0
          · simp [openings, overdrawn, staysOpen_iff.mpr h, h] at ih ⊢
            omega
          · simp [openings, overdrawn, mt staysOpen_iff.mp h]
            omega
      | pop =>
          simp [openings, overdrawn]
          omega
      | _ => simpa [openings, overdrawn] using ih

/-- The pushes that stay undone behind one of them are those among the steps after it. -/
lemma openings_of_eq_append {before behind : List (List (Step α))} {opened : List (Step α)}
    (h : openings steps = before ++ opened :: behind) :
    StaysOpen opened ∧ openings opened = behind := by
  induction steps generalizing before with
  | nil => simp [openings] at h
  | cons step steps ih =>
      cases step with
      | push =>
          rw [openings] at h
          split at h
          · next hopen =>
              cases before with
              | nil =>
                  obtain ⟨rfl, rfl⟩ := List.cons.inj h
                  exact ⟨hopen, rfl⟩
              | cons first before => exact ih (List.cons.inj h).2
          · exact ih h
      | _ => exact ih h

/-- The steps that opened a scope end in it if no later push stays undone. -/
lemma balanced_of_openings_eq_nil (hopen : StaysOpen steps) (h : openings steps = []) :
    Balanced steps := by
  have hlength := length_openings steps
  rw [h, staysOpen_iff.mp hopen, List.length_nil] at hlength
  exact ⟨hopen, by omega⟩

/-- Where a later push stays undone, the steps end in another scope. -/
lemma pops_lt_pushes (hopen : StaysOpen steps) (h : openings steps ≠ []) :
    pops steps < pushes steps := by
  have hlength := length_openings steps
  have hpos := List.length_pos_of_ne_nil h
  rw [staysOpen_iff.mp hopen] at hlength
  omega

/-! ### One step more -/

/-- What is no pop closes no scope. -/
lemma openings_append_singleton (hstep : step.isPop = false) :
    openings (steps ++ [step])
      = (openings steps).map (· ++ [step]) ++ if step.isPush then [[]] else [] := by
  have hopen (others : List (Step α)) : StaysOpen (others ++ [step]) ↔ StaysOpen others :=
    ⟨fun h => (staysOpen_append_singleton.mp h).1, fun h =>
      h.append_singleton fun hpop => absurd hpop (Bool.eq_false_iff.mp hstep)⟩
  induction steps with
  | nil => cases step <;> simp [openings, staysOpen_nil]
  | cons first steps ih =>
      cases first with
      | push =>
          by_cases h : StaysOpen steps <;> simp [openings, hopen, h, ih]
      | _ => simpa [openings] using ih

/-- A pop closes the scope that was opened last. -/
lemma openings_append_pop :
    openings (steps ++ [.pop]) = (openings steps).dropLast.map (· ++ [.pop]) := by
  induction steps with
  | nil => rfl
  | cons first steps ih =>
      cases first with
      | push =>
          by_cases h : StaysOpen steps
          · cases hinner : openings steps with
            | nil =>
                have hclosed : ¬StaysOpen (steps ++ [.pop]) := by
                  have hbalanced := (balanced_of_openings_eq_nil h hinner).2
                  simp [staysOpen_append_singleton, hbalanced]
                simp [openings, h, hclosed, ih, hinner]
            | cons second others =>
                have hopen : StaysOpen (steps ++ [.pop]) :=
                  h.append_singleton fun _ => pops_lt_pushes h (by simp [hinner])
                simp [openings, h, hopen, ih, hinner]
          · have hclosed : ¬StaysOpen (steps ++ [.pop]) := fun hopen =>
              h (staysOpen_append_singleton.mp hopen).1
            simp [openings, h, hclosed, ih]
      | _ => simpa [openings] using ih

/-- A value bound after balanced steps is received, after those before it. -/
lemma received_append_singleton (name : String) :
    received name (steps ++ [step])
      = received name steps ++ if Balanced steps then (step.value? name).toList else [] := by
  have hfirst : ∀ i ∈ List.range steps.length,
      (if Balanced ((steps ++ [step]).take i) then (steps ++ [step])[i]?.bind (Step.value? name)
        else none)
        = if Balanced (steps.take i) then steps[i]?.bind (Step.value? name) else none := by
    intro i hi
    have hlt := List.mem_range.mp hi
    rw [List.take_append_of_le_length hlt.le, List.getElem?_append_left hlt]
  rw [received, List.length_append, List.length_singleton, List.range_succ, List.filterMap_append,
    List.filterMap_congr hfirst, List.filterMap_cons, List.filterMap_nil, List.take_left,
    List.getElem?_concat_length, Option.bind_some]
  refine congrArg (received name steps ++ ·) ?_
  split_ifs
  · cases step.value? name <;> rfl
  · rfl

end Sequences

/-! ### Runs -/

/-- Each scope has the last values that its names received in the steps since it was opened. -/
def Agrees (s : Scopes α) (opened : List (List (Step α))) : Prop :=
  List.Forall₂ (fun bindings steps => ∀ name, bindings.find? name = (received name steps).getLast?)
    s opened

lemma after_append_singleton (steps : List (Step α)) (step : Step α) (s : Scopes α) :
    after (steps ++ [step]) s = step.apply (after steps s) :=
  List.foldl_concat ..

section Runs

variable {s : Scopes α} {opened : List (List (Step α))}

/-- A step that binds nothing in the scopes leaves their names as they were. -/
lemma Agrees.map (h : Agrees s opened) {step : Step α}
    (hstep : ∀ steps ∈ opened, Balanced steps → ∀ name, step.value? name = none) :
    Agrees s (opened.map (· ++ [step])) := by
  induction h with
  | nil => exact .nil
  | @cons bindings steps s opened hfirst _ ih =>
      obtain ⟨hfirst', hothers⟩ := List.forall_mem_cons.mp hstep
      refine .cons (fun name => ?_) (ih hothers)
      have hnothing : (if Balanced steps then (step.value? name).toList else []) = [] := by
        split_ifs with hbalanced
        · rw [hfirst' hbalanced name, Option.toList_none]
        · rfl
      rw [hfirst name, received_append_singleton, hnothing, List.append_nil]

/-- A new value in the innermost scope is the last one that its name received there. -/
lemma find?_set_received {bindings : Bindings α} {steps : List (Step α)}
    (h : ∀ name, bindings.find? name = (received name steps).getLast?) (hbalanced : Balanced steps)
    (name : String) (a : α) (other : String) :
    (bindings.set name a).find? other
      = (received other (steps ++ [.bind name a])).getLast? := by
  rw [Bindings.find?_set, received_append_singleton, if_pos hbalanced, Step.value?, h]
  split_ifs <;> simp

lemma Agrees.tail (h : Agrees s opened) : Agrees s.tail opened.tail := by
  cases h with
  | nil => exact .nil
  | cons _ hothers => exact hothers

/-- The steps end in the scope that was opened last, and not in an earlier one. -/
lemma balanced_of_reverse_eq_cons {steps innermost : List (Step α)}
    (h : (openings steps).reverse = innermost :: opened) :
    Balanced innermost ∧ ∀ outer ∈ opened, ¬Balanced outer := by
  replace h : openings steps = opened.reverse ++ [innermost] := by
    rw [← List.reverse_reverse (openings steps), h, List.reverse_cons]
  obtain ⟨hopen, hlast⟩ := openings_of_eq_append h
  refine ⟨balanced_of_openings_eq_nil hopen hlast, fun outer houter hbalanced => ?_⟩
  obtain ⟨before, between, hsplit⟩ := List.append_of_mem (List.mem_reverse.mpr houter)
  rw [hsplit, List.append_assoc, List.cons_append] at h
  obtain ⟨hopen', hbehind⟩ := openings_of_eq_append h
  exact (pops_lt_pushes hopen' (by simp [hbehind])).ne hbalanced.2

/-- **A run.** After any steps, the scopes are those that the steps opened and left open, with what
they received. The induction adds steps at the end: a new value goes into the scope that was opened
last, as the steps since then are balanced and those since an earlier opening are not. -/
theorem agrees_after (steps : List (Step α)) :
    Agrees (after steps empty) (openings steps).reverse := by
  induction steps using List.reverseRecOn with
  | nil => exact .nil
  | append_singleton steps step ih =>
      rw [after_append_singleton]
      have hlook (hbind : ∀ name, step.value? name = none) :
          Agrees (after steps empty) ((openings steps).reverse.map (· ++ [step])) :=
        ih.map fun _ _ _ => hbind
      cases step with
      | push =>
          rw [openings_append_singleton rfl, List.reverse_append, ← List.map_reverse]
          exact .cons (fun _ => rfl) (hlook fun _ => rfl)
      | pop =>
          rw [openings_append_pop, ← List.map_reverse, ← List.tail_reverse, List.map_tail]
          exact (hlook fun _ => rfl).tail
      | bind name a =>
          rw [openings_append_singleton rfl, List.reverse_append, ← List.map_reverse]
          cases hopened : (openings steps).reverse with
          | nil =>
              rw [hopened] at ih
              generalize after steps empty = s at ih
              cases ih
              exact .nil
          | cons innermost outer =>
              obtain ⟨hbalanced, houter⟩ := balanced_of_reverse_eq_cons hopened
              rw [hopened] at ih
              generalize after steps empty = s at ih
              cases ih with
              | cons hfirst hothers =>
                  exact .cons (find?_set_received hfirst hbalanced name a)
                    (Agrees.map hothers fun steps hsteps h => absurd h (houter steps hsteps))
      | lookup name =>
          rw [openings_append_singleton rfl, List.reverse_append, ← List.map_reverse]
          exact hlook fun _ => rfl
      | localLookup name =>
          rw [openings_append_singleton rfl, List.reverse_append, ← List.map_reverse]
          exact hlook fun _ => rfl

/-- As many scopes are open as pushes stay undone. -/
lemma Agrees.depth_eq (h : Agrees s opened) : s.depth = opened.length := h.length_eq

/-- A name has its last value in the innermost scope that received one for it. -/
lemma Agrees.lookup_eq (h : Agrees s opened) (name : String) :
    s.lookup name = opened.findSome? fun steps => (received name steps).getLast? := by
  induction h with
  | nil => rfl
  | @cons bindings steps _ _ hfirst _ ih =>
      rw [lookup, hfirst, ih, List.findSome?_cons]
      cases (received name steps).getLast? <;> rfl

/-- In the innermost scope a name has the last value that it received there. -/
lemma Agrees.localLookup_eq (h : Agrees s opened) (name : String) :
    s.localLookup name = opened.head?.bind fun steps => (received name steps).getLast? := by
  cases h with
  | nil => rfl
  | cons hfirst _ => exact hfirst name

/-- Steps that leave the scope open in which they begin leave those around it as they were, below
the scopes that they opened themselves. -/
lemma drop_after {steps : List (Step α)} (h : StaysOpen steps) {k : ℕ}
    (hk : pushes steps = pops steps + k) (bindings : Bindings α) (s : Scopes α) :
    (after steps (bindings :: s)).drop (k + 1) = s := by
  induction steps using List.reverseRecOn generalizing k with
  | nil =>
      obtain rfl : 0 = k := by simpa using hk
      rfl
  | append_singleton steps step ih =>
      have hopen := (staysOpen_append_singleton.mp h).1
      have hle := hopen steps List.prefix_rfl
      rw [after_append_singleton]
      simp only [pushes_append, pops_append, pushes_cons, pops_cons, pushes_nil, pops_nil] at hk
      cases step with
      | push =>
          obtain ⟨k, rfl⟩ : ∃ j, k = j + 1 := ⟨k - 1, by simp at hk; omega⟩
          exact ih hopen (by simp at hk; omega)
      | pop =>
          have hdrop := ih hopen (k := k + 1) (by simp at hk; omega)
          rwa [← List.drop_tail] at hdrop
      | bind name a =>
          have hdrop := ih hopen (k := k) (by simpa using hk)
          generalize after steps (bindings :: s) = t at hdrop
          cases t <;> exact hdrop
      | lookup name => exact ih hopen (by simpa using hk)
      | localLookup name => exact ih hopen (by simpa using hk)

end Runs

/-- **Scopes after any steps.** Beginning without scopes, and with pops where none is open and
bindings that are dropped, as many scopes are open as there are pushes that no later pop undoes. A
name has the value that it got last in the innermost of these scopes in which it got one, and in the
innermost scope it has the value that it got last there. Balanced steps in a scope of their own
leave all scopes as they were. -/
theorem scopes_after_steps :
    (∀ steps : List (Step α), (after steps empty).depth = (openings steps).length ∧
      ∀ name, (after steps empty).lookup name
          = (openings steps).reverse.findSome? (fun opened => (received name opened).getLast?) ∧
        (after steps empty).localLookup name
          = (openings steps).getLast?.bind fun opened => (received name opened).getLast?) ∧
    ∀ (s : Scopes α) (steps : List (Step α)), Balanced steps →
      after (.push :: steps ++ [.pop]) s = s := by
  refine ⟨fun steps => ?_, fun s steps h => ?_⟩
  · have hagrees := agrees_after steps
    refine ⟨hagrees.depth_eq.trans (List.length_reverse ..), fun name =>
      ⟨hagrees.lookup_eq name, ?_⟩⟩
    rw [hagrees.localLookup_eq, List.head?_reverse]
  · rw [after_append_singleton]
    have hdrop := drop_after h.1 (k := 0) h.2.symm [] s
    rwa [List.drop_one] at hdrop

/-- Steps in a scope that bind a name twice, the second time in a scope of its own. -/
def shadowingSteps : List (Step ℕ) :=
  [.bind "x" 2, .push, .lookup "x", .bind "x" 3, .pop, .localLookup "x"]

/-- A name that is bound in two scopes has its inner value until they are closed, and then the outer
one again. The first of all steps pops where nothing is open. -/
theorem scopes_after_shadowing :
    Balanced shadowingSteps ∧
      after (.push :: shadowingSteps ++ [.pop]) [[("x", 1)]] = [[("x", 1)]] ∧
      (after (.pop :: .push :: shadowingSteps) empty).lookup "x" = some 2 := by
  have hbalanced : Balanced shadowingSteps := by decide
  obtain ⟨hsteps, hframe⟩ := @scopes_after_steps ℕ
  refine ⟨hbalanced, hframe _ _ hbalanced, ?_⟩
  rw [((hsteps _).2 "x").1]
  decide

end Fern.Scopes
