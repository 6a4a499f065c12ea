import Fern.Proofs.Parsing.Correspondence

/-!
The parser takes places from the tokens, and never looks at them.

* `State.relocate`, `Failure.relocate`: states and failures at other places.
* `Carries`: on a relocated state, one computation does what another does on the state, with results
  that belong together. `carrying`: the operations of the parser keep this.
* `parse_relocate`: relocated tokens make the relocated program, or the problem is found at the
  place that it belongs to.
* `parse_eq_append`: what was found before has no part in the parsing.
-/

namespace Fern

namespace Parsing

variable {g : Location → Location}

/-- The state with all its places changed. -/
def State.relocate (g : Location → Location) (s : State) : State :=
  ⟨s.rest.map (Token.relocate g), g s.last, s.arena.relocate g⟩

/-- The failure at another place. -/
def Failure.relocate (g : Location → Location) : Failure → Failure
  | .finding d => .finding (d.relocate g)
  | .exhausted => .exhausted

/-- What comes next is the same token at another place. -/
lemma State.alike_relocate (s : State) : Alike g s (s.relocate g) := by
  obtain ⟨rest, last, arena⟩ := s
  cases rest <;> exact ⟨rfl, rfl, rfl, rfl⟩

/-! ### Computations on relocated states -/

/-- What a run ends with on the relocated state: with `ρ` of the result. -/
def relocateResult (g : Location → Location) {α β : Type} (ρ : α → β) :
    EStateM.Result Failure State α → EStateM.Result Failure State β
  | .ok a s => .ok (ρ a) (s.relocate g)
  | .error e s => .error (e.relocate g) (s.relocate g)

/-- On every relocated state, `y` does what `x` does on the state, with `ρ` of the result. -/
def Carries (g : Location → Location) {α β : Type} (ρ : α → β) (x : Parse α) (y : Parse β) : Prop :=
  ∀ s, y (s.relocate g) = relocateResult g ρ (x s)

section Steps

variable {α β γ δ : Type} {ρ : α → β} {σ : γ → δ}

namespace Carries

lemma bind {x : Parse α} {y : Parse β} {f : α → Parse γ} {f' : β → Parse δ}
    (hx : Carries g ρ x y) (hf : ∀ a, Carries g σ (f a) (f' (ρ a))) :
    Carries g σ (x >>= f) (y >>= f') := by
  intro s
  simp only [Bind.bind, EStateM.bind, hx s]
  cases x s with
  | ok a s' => exact hf a s'
  | error e s' => rfl

lemma pure {a : α} {b : β} (h : b = ρ a) : Carries g ρ (Pure.pure a) (Pure.pure b) :=
  fun s => congrArg (EStateM.Result.ok · (s.relocate g)) h

lemma advance : Carries g (Option.map (Token.relocate g)) advance advance := fun s => by
  simp only [Parsing.advance, State.relocate, relocateResult, List.map_tail, List.head?_map]

lemma references : Carries g unmoved references references := fun s => by
  have hkind : isRef ∘ Token.relocate g = isRef := rfl
  simp only [Parsing.references, State.relocate, relocateResult, List.takeWhile_map,
    List.dropWhile_map, hkind, List.length_map]

lemma add {shape shape' : Shape Tree} (l : Location)
    (h : shape' = shape.map (Tree.relabel (.ofPlaces g))) :
    Carries g (Tree.relabel (.ofPlaces g)) (add shape l) (add shape' (g l)) := by
  subst h
  intro s
  have hnumbers : (shape.map (Tree.relabel (.ofPlaces g))).map Tree.id = shape.map Tree.id := by
    rw [Shape.map_map]
    exact Shape.map_congr fun t _ => t.id_relabel _
  simp only [Parsing.add, State.relocate, relocateResult, Arena.size_relocate, hnumbers,
    Arena.add_relocate, Tree.relabel_node]
  rfl

lemma withinBudget {x : ℕ → Parse α} {y : ℕ → Parse β} (h : ∀ n, Carries g ρ (x n) (y n)) :
    Carries g ρ (withinBudget x) (withinBudget y) := by
  intro s
  have hlength : (s.relocate g).rest.length = s.rest.length := List.length_map _
  rw [Parsing.withinBudget, hlength]
  exact h _ s

end Carries

end Steps

/-- The parser does on relocated states what it does on the states, with as many steps. -/
def carrying (g : Location → Location) : Correspondence where
  labels := .ofPlaces g
  steps n m := m = n
  rel := Carries g
  pred_steps h := ⟨_, h, rfl⟩
  exhausted y h hy := by
    rw [h, hy]
    exact fun _ => rfl
  withinBudget h := .withinBudget fun _ => h rfl
  bind := .bind
  pure := .pure
  fail _ _ := fun _ => rfl
  look h := fun s => h s _ s.alike_relocate s
  advance := .advance
  references := .references
  add := .add

/-! ### Programs -/

variable {T : Tables}

lemma carries_program : Carries g (Program.relocate g) (program T) (program T) := by
  have hitems : Carries g (List.map (Item.relabel (.ofPlaces g)))
      (withinBudget (itemsWithin T)) (withinBudget (itemsWithin T)) :=
    .withinBudget fun n => (carrying g).items rfl
  have htake : Carries g (Arena.relocate g) takeArena takeArena := fun s => by
    simp only [takeArena, State.relocate, relocateResult, Arena.relocate_empty]
  refine hitems.bind fun items => htake.bind fun arena => .pure ?_
  rw [Item.declarations_relabel, Item.functions_relabel]
  rfl

/-- **Parsing relocated tokens.** Relocated tokens make the relocated program, and a problem is
found at the place that it belongs to, whatever was found before. -/
lemma parse_relocate (g : Location → Location) (tokens : List Token) (log : Log) :
    parse (tokens.map (Token.relocate g)) log
      = ((parse tokens .empty).1.map (Program.relocate g),
          log ++ (parse tokens .empty).2.relocate g) := by
  by_cases hempty : tokens = []
  · -- the end of an empty text is no token, but nothing is said about it
    subst hempty
    have hprogram : Program.relocate g {} = {} := by
      simp only [Program.relocate, Arena.relocate_empty]
      rfl
    exact congrArg₂ Prod.mk (congrArg some hprogram.symm) (Log.append_empty log).symm
  · have hstate : State.ofTokens (tokens.map (Token.relocate g))
        = (State.ofTokens tokens).relocate g := by
      simp only [State.ofTokens, State.relocate, Arena.relocate_empty, List.getLast?_map,
        List.getLast?_eq_some_getLast hempty]
      rfl
    simp only [parse, EStateM.run, hstate, carries_program (T := .standard) (State.ofTokens tokens)]
    cases program .standard (State.ofTokens tokens) with
    | ok p s => exact congrArg (Prod.mk _) (Log.append_empty log).symm
    | error e s =>
        cases e with
        | finding d => exact congrArg (Prod.mk _) (Log.record_eq_append _ _)
        | exhausted => exact congrArg (Prod.mk _) (Log.append_empty log).symm

/-- What was found before the parsing is found before what the parser finds. -/
lemma parse_eq_append (tokens : List Token) (log : Log) :
    parse tokens log = ((parse tokens .empty).1, log ++ (parse tokens .empty).2) := by
  unfold parse
  split
  · exact congrArg (Prod.mk _) (Log.append_empty log).symm
  · exact congrArg (Prod.mk _) (Log.record_eq_append _ _)
  · exact congrArg (Prod.mk _) (Log.append_empty log).symm

end Parsing

end Fern
