import Mathlib.Tactic
import Fern.Proofs.Parsing.Correspondence
import Fern.Proofs.Parsing.Language
import Fern.Proofs.Parsing.Termination
import Fern.Proofs.Program.Following

/-!
Functions and declarations are parsed one by one.

* `Surroundings`, `State.within`: a state where expressions are stored before its own and tokens
  follow its own.
* `Embeds`: what a computation does in a state, another does among the surroundings, if the first
  one does not see the end of its tokens. `embedding`: the operations of the parser keep this.
* `blockWithin_within`, `item_within`: a block and an item end with a token of their own, so the end
  of the tokens does not matter to them. `itemsWithin_within` puts items together.
* `parse_append`: **tokens after tokens** make a program after a program.
-/

namespace Fern

namespace Parsing

/-! ### Surroundings -/

/-- What stands around some tokens. -/
structure Surroundings where
  /-- The expressions stored before. -/
  before : Arena
  /-- The tokens that follow. -/
  after : List Token
  /-- The place of the last token of all. -/
  last : Location

/-- Expressions come after those that are stored before. -/
def Surroundings.labels (c : Surroundings) : Relabelling := .ofNumbers (c.before.size + ·)

variable {c : Surroundings} {s s₁ s' : State}

namespace State

/-- The state among some surroundings. -/
def within (s : State) (c : Surroundings) : State :=
  ⟨s.rest ++ c.after, c.last, c.before.followedBy s.arena⟩

/-- The end of the tokens is not seen from the state, or it is the end of all tokens. -/
def Inside (s : State) (c : Surroundings) : Prop := s.rest ≠ [] ∨ c.after = [] ∧ c.last = s.last

/-- Reading leads from `s` to `s'`. -/
structure Leads (s s' : State) : Prop where
  rest : s'.rest <:+ s.rest
  last : s'.last = s.last

lemma Leads.refl (s : State) : s.Leads s := ⟨List.suffix_rfl, rfl⟩

lemma Leads.trans (h : s.Leads s₁) (h' : s₁.Leads s') : s.Leads s' :=
  ⟨h'.rest.trans h.rest, h'.last.trans h.last⟩

/-- What is not seen later was not seen before. -/
lemma Leads.inside (h : s.Leads s') (hinside : s'.Inside c) : s.Inside c := by
  refine hinside.imp (fun hne hs => hne ?_) fun ⟨hafter, hlast⟩ => ⟨hafter, hlast.trans h.last⟩
  exact List.suffix_nil.mp (hs ▸ h.rest)

/-- What comes next is the same among the surroundings. -/
lemma Inside.alike (h : s.Inside c) : Alike c.labels.place s (s.within c) := by
  obtain ⟨rest, last, arena⟩ := s
  obtain ⟨before, after, last'⟩ := c
  cases rest with
  | cons t ts => exact ⟨rfl, rfl, rfl, rfl⟩
  | nil =>
      obtain ⟨rfl, rfl⟩ := h.resolve_left fun hne => hne rfl
      exact ⟨rfl, rfl, rfl, rfl⟩

end State

/-! ### Computations among surroundings -/

section Steps

variable {α β γ δ : Type} {ρ : α → β} {σ : γ → δ}

/-- The state that a run ends in. -/
def endState : EStateM.Result Failure State α → State
  | .ok _ s | .error _ s => s

/-- What a run ends with among the surroundings: with `ρ` of the result. -/
def resultWithin (c : Surroundings) (ρ : α → β) :
    EStateM.Result Failure State α → EStateM.Result Failure State β
  | .ok a s => .ok (ρ a) (s.within c)
  | .error e s => .error e (s.within c)

/-- A run of `x` that is not out of steps only reads. If it does not see the end of its tokens, `y`
does the same among the surroundings, with `ρ` of the result. -/
def Embeds (c : Surroundings) (ρ : α → β) (x : Parse α) (y : Parse β) : Prop :=
  ∀ s, (∀ s', x s ≠ .error .exhausted s') → s.Leads (endState (x s)) ∧
    ((endState (x s)).Inside c → y (s.within c) = resultWithin c ρ (x s))

/-- What is stored among the surroundings has its number and those of its subexpressions there. -/
lemma add_within (shape : Shape Tree) (l : Location) (s : State) :
    add (shape.map (Tree.relabel c.labels)) l (s.within c)
      = resultWithin c (Tree.relabel c.labels) (add shape l s) := by
  have hnumbers : (shape.map (Tree.relabel c.labels)).map Tree.id
      = (shape.map Tree.id).map (c.before.size + ·) := by
    rw [Shape.map_map, Shape.map_map]
    exact Shape.map_congr fun t _ => t.id_relabel _
  simp only [add, State.within, resultWithin, Arena.size_followedBy, hnumbers,
    Arena.followedBy_add, Tree.relabel_node]
  rfl

namespace Embeds

lemma ok {x : Parse α} {y : Parse β} {a : α} (hxy : Embeds c ρ x y) (h : x s = .ok a s') :
    s.Leads s' ∧ (s'.Inside c → y (s.within c) = .ok (ρ a) (s'.within c)) := by
  have hrun := hxy s (by simp [h])
  rwa [h] at hrun

lemma finding {x : Parse α} {y : Parse β} {d : Diagnostic} (hxy : Embeds c ρ x y)
    (h : x s = .error (.finding d) s') :
    s.Leads s' ∧ (s'.Inside c → y (s.within c) = .error (.finding d) (s'.within c)) := by
  have hrun := hxy s (by simp [h])
  rwa [h] at hrun

lemma bind {x : Parse α} {y : Parse β} {f : α → Parse γ} {f' : β → Parse δ}
    (hxy : Embeds c ρ x y) (hf : ∀ a, Embeds c σ (f a) (f' (ρ a))) :
    Embeds c σ (x >>= f) (y >>= f') := by
  intro s hne
  simp only [Bind.bind, EStateM.bind] at hne ⊢
  cases hx : x s with
  | ok a s₁ =>
      obtain ⟨hleads, hy⟩ := hxy.ok hx
      rw [hx] at hne
      obtain ⟨hleads', hrun⟩ := hf a s₁ hne
      refine ⟨hleads.trans hleads', fun hinside => ?_⟩
      rw [hy (hleads'.inside hinside)]
      exact hrun hinside
  | error e s₁ =>
      cases e with
      | exhausted => exact absurd (by rw [hx]) (hne s₁)
      | finding d =>
          obtain ⟨hleads, hy⟩ := hxy.finding hx
          refine ⟨hleads, fun hinside => ?_⟩
          rw [hy hinside]
          rfl

lemma pure {a : α} {b : β} (h : b = ρ a) : Embeds c ρ (Pure.pure a) (Pure.pure b) :=
  fun s _ => ⟨.refl s, fun _ => congrArg (EStateM.Result.ok · (s.within c)) h⟩

lemma fail (p : Problem) (l : Location) : Embeds c ρ (fail p l) (fail p l) :=
  fun s _ => ⟨.refl s, fun _ => rfl⟩

/-- As long as the end is not seen, the next token is the same. -/
lemma look {f : State → Parse α} {f' : State → Parse β}
    (h : ∀ s s', State.Alike c.labels.place s s' → Embeds c ρ (f s) (f' s')) :
    Embeds c ρ (get >>= f) (get >>= f') := by
  intro s hne
  obtain ⟨hleads, -⟩ := h s s ⟨rfl, rfl, rfl, rfl⟩ s hne
  exact ⟨hleads, fun hinside => (h s _ (hleads.inside hinside).alike s hne).2 hinside⟩

lemma advance : Embeds c (Option.map (Token.relocate c.labels.place)) advance advance := by
  rintro ⟨rest, last, arena⟩ -
  refine ⟨⟨List.tail_suffix _, rfl⟩, fun hinside => ?_⟩
  cases rest with
  | cons t ts => rfl
  | nil =>
      obtain ⟨hafter, -⟩ := hinside.resolve_left fun hne => hne rfl
      simp only [Parsing.advance, State.within, resultWithin, hafter]
      rfl

lemma references : Embeds c unmoved references references := by
  rintro ⟨rest, last, arena⟩ -
  refine ⟨⟨List.dropWhile_suffix _, rfl⟩, fun hinside => ?_⟩
  have hsplit : (rest ++ c.after).takeWhile isRef = rest.takeWhile isRef ∧
      (rest ++ c.after).dropWhile isRef = rest.dropWhile isRef ++ c.after := by
    rcases hinside with hne | ⟨hafter, -⟩
    · replace hne : rest.dropWhile isRef ≠ [] := hne
      have hlength :=
        congrArg List.length (List.takeWhile_append_dropWhile (p := isRef) (l := rest))
      have hpos := List.length_pos_of_ne_nil hne
      rw [List.length_append] at hlength
      rw [List.takeWhile_append, if_neg (by omega), List.dropWhile_append,
        if_neg (by rwa [List.isEmpty_iff])]
      exact ⟨rfl, rfl⟩
    · simp only [hafter, List.append_nil, and_self]
  simp only [Parsing.references, State.within, resultWithin, hsplit]

lemma add {shape shape' : Shape Tree} (l : Location)
    (h : shape' = shape.map (Tree.relabel c.labels)) :
    Embeds c (Tree.relabel c.labels) (add shape l) (add shape' l) :=
  fun s _ => ⟨⟨List.suffix_rfl, rfl⟩, fun _ => h ▸ add_within shape l s⟩

/-- Among the surroundings there are more tokens, and so more steps are allowed. -/
lemma withinBudget {x : ℕ → Parse α} {y : ℕ → Parse β}
    (h : ∀ {n m}, n ≤ m → Embeds c ρ (x n) (y m)) :
    Embeds c ρ (withinBudget x) (withinBudget y) := fun s hne => by
  have hmore : s.rest.length ≤ (s.within c).rest.length := by simp [State.within]
  exact h (by omega : 8 * (s.rest.length + 1) ≤ 8 * ((s.within c).rest.length + 1)) s hne

end Embeds

end Steps

/-- The parser does among surroundings what it does without them, with as many steps or more. -/
def embedding (c : Surroundings) : Correspondence where
  labels := c.labels
  steps n m := n ≤ m
  rel := Embeds c
  pred_steps {n m} h := ⟨m - 1, by omega, by omega⟩
  exhausted _ _ _ := fun s hne => absurd rfl (hne s)
  withinBudget := .withinBudget
  bind := .bind
  pure := .pure
  fail := .fail
  look := .look
  advance := .advance
  references := .references
  add := .add

/-! ### What ends with a token of its own -/

section Closed

variable {T : Tables} {n m : ℕ} {t : Tree}

/-- A block is the same among the surroundings, with as many steps or more. -/
lemma blockWithin_within (hnm : n ≤ m) (h : blockWithin T n s = .ok t s') :
    s.rest ≠ [] ∧ blockWithin T m (s.within c) = .ok (t.relabel c.labels) (s'.within c) := by
  cases n with
  | zero => exact absurd h throw_ne_ok
  | succ n =>
      obtain ⟨m, rfl⟩ : ∃ k, m = k + 1 := ⟨m - 1, by omega⟩
      obtain ⟨opening, ts, es, s₁, closing, ts₁, hs, hopening, hnonempty, hstatements, hrest,
        hclosing, hadd⟩ := blockWithin_eq_ok.mp h
      -- up to the closing brace, the end of the tokens is not seen
      have hinside : s₁.Inside c := .inl (by simp [hrest])
      have hembeds : Embeds c _ (statementsWithin T n) (statementsWithin T m) :=
        ((embedding c).expressions (Nat.le_of_succ_le_succ hnm)).statements
      obtain ⟨hleads, hrun⟩ := hembeds.ok hstatements
      refine ⟨by simp [hs], blockWithin_eq_ok.mpr ⟨opening, ts ++ c.after, _, s₁.within c, closing,
        ts₁ ++ c.after, by simp [State.within, hs], hopening, ?_, hrun hinside,
        by simp [State.within, hrest], hclosing, ?_⟩⟩
      · exact (hleads.inside hinside).alike.kind ▸ hnonempty
      · exact (add_within _ _ _).trans (congrArg (resultWithin c _) hadd)

lemma function_within {f : Function} (h : function .standard s = .ok f s') :
    function .standard (s.within c) = .ok (f.relabel c.labels) (s'.within c) := by
  obtain ⟨q, s₁, body, hq, hbody, rfl⟩ := function_eq_ok.mp h
  have hmore : s₁.rest.length ≤ (s₁.within c).rest.length := by simp [State.within]
  obtain ⟨hne, hbody⟩ := blockWithin_within (c := c)
    (by omega : 8 * (s₁.rest.length + 1) ≤ 8 * ((s₁.within c).rest.length + 1)) hbody
  have hprototype : Embeds c _ prototype prototype := (embedding c).prototype
  refine function_eq_ok.mpr ⟨_, _, _, (hprototype.ok hq).2 (.inl hne), hbody, ?_⟩
  exact congrArg (Function.mk _) (body.id_relabel _).symm

lemma declaration_within {q : Prototype} (h : declaration s = .ok q s') :
    declaration (s.within c) = .ok (q.relocate c.labels.place) (s'.within c) := by
  obtain ⟨word, ts, s₁, semicolon, ts₁, hs, hword, hq, hrest, hsemicolon, rfl⟩ :=
    declaration_eq_ok.mp h
  have hprototype : Embeds c _ prototype prototype := (embedding c).prototype
  exact declaration_eq_ok.mpr ⟨word, ts ++ c.after, s₁.within c, semicolon, ts₁ ++ c.after,
    by simp [State.within, hs], hword, (hprototype.ok hq).2 (.inl (by simp [hrest])),
    by simp [State.within, hrest], hsemicolon, rfl⟩

/-- An item is the same among the surroundings. -/
lemma item_within {i : Item} (hne : s.rest ≠ []) (h : item .standard s = .ok i s') :
    item .standard (s.within c) = .ok (i.relabel c.labels) (s'.within c) := by
  have hinside : s.Inside c := .inl hne
  have hsame := hinside.alike.kind
  rcases item_eq_ok.mp h with ⟨hkind, f, hf, rfl⟩ | ⟨hkind, q, hq, rfl⟩
  · exact item_eq_ok.mpr (.inl ⟨hsame.trans hkind, _, function_within hf, rfl⟩)
  · exact item_eq_ok.mpr (.inr ⟨hsame.trans hkind, _, declaration_within hq, rfl⟩)

end Closed

/-! ### Items after items -/

variable {n : ℕ} {i : Item} {is js : List Item} {ts us : List Token}

/-- Each item takes a step, and one is left for the end of the tokens, where the reading ends. -/
lemma itemsWithin_ends (h : itemsWithin .standard n s = .ok is s') :
    is.length < n ∧ s'.rest = [] := by
  induction n generalizing s is with
  | zero => exact absurd h throw_ne_ok
  | succ n ih =>
      rcases itemsWithin_eq_ok.mp h with ⟨hs, rfl, rfl⟩ | ⟨-, i, s₁, others, -, hothers, rfl⟩
      · exact ⟨Nat.succ_pos n, hs⟩
      · obtain ⟨hlength, hend⟩ := ih hothers
        exact ⟨Nat.succ_lt_succ hlength, hend⟩

/-- After an item, the others are read. -/
lemma itemsWithin_of_item (hne : s.rest ≠ []) (h : item .standard s = .ok i s₁) :
    itemsWithin .standard (n + 1) s = ((i :: ·) <$> itemsWithin .standard n) s₁ := by
  have hnonempty : s.rest.isEmpty = false := by simp [hne]
  rw [itemsWithin, get_bind, hnonempty, if_neg Bool.false_ne_true, map_eq_pure_bind]
  simp only [Bind.bind, EStateM.bind, h]

lemma map_run_congr {α β : Type} {x y : Parse α} {f : α → β} (h : x s = y s') :
    (f <$> x) s = (f <$> y) s' := by
  simp only [Functor.map, EStateM.map, h]

/-- Where items are followed by more tokens, they are read first, and then what follows is. -/
lemma itemsWithin_within (h : itemsWithin .standard n s = .ok is s') (m : ℕ) :
    itemsWithin .standard (is.length + m) (s.within c)
      = ((is.map (Item.relabel c.labels) ++ ·) <$> itemsWithin .standard m) (s'.within c) := by
  induction n generalizing s is with
  | zero => exact absurd h throw_ne_ok
  | succ n ih =>
      rcases itemsWithin_eq_ok.mp h with ⟨-, rfl, rfl⟩ | ⟨hne, i, s₁, others, hi, hothers, rfl⟩
      · simp only [List.length_nil, Nat.zero_add, List.map_nil, List.nil_append, id_map']
      · have hne' : (s.within c).rest ≠ [] := by simp [State.within, hne]
        rw [List.length_cons, Nat.add_right_comm, itemsWithin_of_item hne' (item_within hne hi),
          map_run_congr (ih hothers), Functor.map_map]
        rfl

/-- With nothing stored before, an item keeps its numbers. -/
lemma Item.relabel_labels (i : Item) (h : c.before = .empty) : i.relabel c.labels = i := by
  have hlabels : c.labels = .same := by
    rw [Surroundings.labels, h]
    exact congrArg Relabelling.ofNumbers (funext Nat.zero_add)
  rw [hlabels]
  cases i with
  | function f => exact congrArg (Item.function ⟨·, f.body⟩) f.prototype.relocate_same
  | declaration p => exact congrArg Item.declaration p.relocate_same

/-- The tokens `us` after the tokens `ts`: the items of `ts` are read, and then `us` is, with the
expressions of `ts` stored before and with no fewer steps than it needs alone. -/
lemma items_append (h : withinBudget (itemsWithin .standard) (.ofTokens ts) = .ok is s₁)
    (hus : us ≠ []) : ∃ m ≥ 8 * (us.length + 1),
      withinBudget (itemsWithin .standard) (.ofTokens (ts ++ us))
        = ((is ++ ·) <$> itemsWithin .standard m)
            ((State.ofTokens us).within ⟨s₁.arena, [], (State.ofTokens us).last⟩) := by
  have hlast : (State.ofTokens (ts ++ us)).last = (State.ofTokens us).last := by
    simp only [State.ofTokens, List.getLast?_append_of_ne_nil ts hus]
  -- `us` stands after `ts` with nothing stored before
  let c : Surroundings := ⟨.empty, us, (State.ofTokens us).last⟩
  have hbefore : State.ofTokens (ts ++ us) = (State.ofTokens ts).within c := by
    refine State.mk.injEq .. |>.mpr ⟨rfl, hlast, ?_⟩
    exact (Arena.empty_followedBy _).symm
  have hsteps := itemsWithin_eq_of_lt (n := ts.length + 1) h (Nat.lt_succ_self _)
  obtain ⟨hlength, hend⟩ := itemsWithin_ends hsteps
  have hafter : s₁.within c
      = (State.ofTokens us).within ⟨s₁.arena, [], (State.ofTokens us).last⟩ := by
    simp [State.within, hend, c, State.ofTokens]
  have hsame : is.map (Item.relabel c.labels) = is :=
    (List.map_congr_left fun i _ => i.relabel_labels rfl).trans (List.map_id' _)
  refine ⟨8 * ((ts ++ us).length + 1) - is.length, ?_, ?_⟩
  · rw [List.length_append]
    omega
  · have hrun := itemsWithin_within (c := c) hsteps (8 * ((ts ++ us).length + 1) - is.length)
    rw [Nat.add_sub_cancel' (by rw [List.length_append]; omega), ← hbefore, hsame, hafter] at hrun
    exact hrun

/-! ### Programs -/

/-- The program of some items with their expressions in `a`. -/
def programOf (a : Arena) (is : List Item) : Program :=
  ⟨a, is.filterMap Item.declaration?, is.filterMap Item.function?⟩

/-- Items after items, with their expressions after those of the first ones, make a program after a
program. -/
lemma programOf_followedBy (a b : Arena) (is js : List Item) :
    programOf (a.followedBy b) (is ++ js.map (Item.relabel (.ofNumbers (a.size + ·))))
      = (programOf a is).followedBy (programOf b js) := by
  have hdeclarations (ps : List Prototype) :
      ps.map (Prototype.relocate (Relabelling.ofNumbers (a.size + ·)).place) = ps :=
    (List.map_congr_left fun q _ => q.relocate_same).trans (List.map_id' _)
  have hfunctions (fs : List Function) : fs.map (Function.relabel (.ofNumbers (a.size + ·)))
      = fs.map (Function.shift a.size) :=
    List.map_congr_left fun f _ => congrArg (Function.mk · _) f.prototype.relocate_same
  simp only [programOf, Program.followedBy, List.filterMap_append, Item.declarations_relabel,
    Item.functions_relabel, hdeclarations, hfunctions]

lemma parse_of_items_ok (h : withinBudget (itemsWithin .standard) (.ofTokens ts) = .ok is s')
    (log : Log) : parse ts log = (some (programOf s'.arena is), log) :=
  parse_of_program_eq_ok (program_eq_ok.mpr ⟨is, s', h, rfl, rfl⟩)

lemma parse_of_items_finding {d : Diagnostic}
    (h : withinBudget (itemsWithin .standard) (.ofTokens ts) = .error (.finding d) s')
    (log : Log) : parse ts log = (none, log.record d) := by
  simp only [parse, EStateM.run, program, Bind.bind, EStateM.bind, h]

/-- The items of a program that has been read. -/
lemma exists_items_of_parse {log : Log} {p : Program} (h : (parse ts log).1 = some p) :
    ∃ is s', withinBudget (itemsWithin .standard) (.ofTokens ts) = .ok is s' ∧
      p = programOf s'.arena is := by
  obtain ⟨_, hprogram⟩ := parse_eq_some.mp h
  obtain ⟨is, s', his, -, rfl⟩ := program_eq_ok.mp hprogram
  exact ⟨is, s', his, rfl⟩

/-- Items that follow others are those that are read alone, with their expressions after those of
the others. -/
lemma items_append_ok (h : withinBudget (itemsWithin .standard) (.ofTokens ts) = .ok is s₁)
    (h' : withinBudget (itemsWithin .standard) (.ofTokens us) = .ok js s') (hus : us ≠ []) :
    ∃ s₂, withinBudget (itemsWithin .standard) (.ofTokens (ts ++ us))
        = .ok (is ++ js.map (Item.relabel (.ofNumbers (s₁.arena.size + ·)))) s₂ ∧
      s₂.arena = s₁.arena.followedBy s'.arena := by
  obtain ⟨m, hm, hrun⟩ := items_append h hus
  have hembeds : Embeds _ _ (itemsWithin .standard _) (itemsWithin .standard m) :=
    (embedding ⟨s₁.arena, [], (State.ofTokens us).last⟩).items hm
  obtain ⟨hleads, hok⟩ := hembeds.ok h'
  refine ⟨_, hrun.trans (map_eq_ok.mpr ⟨_, hok (.inr ⟨rfl, hleads.last.symm⟩), rfl⟩), rfl⟩

/-- A finding after some items is the one that is made without them. -/
lemma items_append_finding (h : withinBudget (itemsWithin .standard) (.ofTokens ts) = .ok is s₁)
    {d : Diagnostic}
    (h' : withinBudget (itemsWithin .standard) (.ofTokens us) = .error (.finding d) s')
    (hus : us ≠ []) : ∃ s₂,
      withinBudget (itemsWithin .standard) (.ofTokens (ts ++ us)) = .error (.finding d) s₂ := by
  obtain ⟨m, hm, hrun⟩ := items_append h hus
  have hembeds : Embeds _ _ (itemsWithin .standard _) (itemsWithin .standard m) :=
    (embedding ⟨s₁.arena, [], (State.ofTokens us).last⟩).items hm
  obtain ⟨hleads, herror⟩ := hembeds.finding h'
  have hlast := herror (.inr ⟨rfl, hleads.last.symm⟩)
  simp only [Functor.map, EStateM.map, hlast] at hrun
  exact ⟨_, hrun⟩

end Parsing

open Parsing

/-- **Tokens after tokens.** Where tokens that make a program stand before others that make one, the
program of all of them is that of the first followed by that of the others. If the others make none,
the problem in them is found, at the same place. -/
theorem parse_append (ts us : List Token) (logt logu log : Log) (p : Program)
    (h : (parse ts logt).1 = some p) :
    (∀ q, (parse us logu).1 = some q → parse (ts ++ us) log = (some (p.followedBy q), log)) ∧
    ((parse us logu).1 = none → ∃ d, parse us logu = (none, logu.record d) ∧
      parse (ts ++ us) log = (none, log.record d)) := by
  obtain ⟨is, s₁, his, rfl⟩ := exists_items_of_parse h
  by_cases hus : us = []
  · -- without tokens there is no last one, but then nothing is said about it
    subst hus
    have hempty (log : Log) : parse [] log = (some {}, log) := rfl
    rw [hempty, List.append_nil, parse_of_items_ok his]
    refine ⟨fun q hq => ?_, fun hnone => by cases hnone⟩
    rw [← Option.some.inj hq, Program.followedBy_empty]
  rcases items_ok_or_finding us with ⟨js, s₂, hjs⟩ | ⟨d, s₂, hd⟩
  · obtain ⟨s₃, hall, harena⟩ := items_append_ok his hjs hus
    have hus := parse_of_items_ok hjs logu
    refine ⟨fun q hq => ?_, fun hnone => ?_⟩
    · rw [hus] at hq
      rw [parse_of_items_ok hall, harena, programOf_followedBy, Option.some.inj hq]
    · rw [hus] at hnone
      cases hnone
  · obtain ⟨s₃, hall⟩ := items_append_finding his hd hus
    have hus := parse_of_items_finding hd logu
    refine ⟨fun q hq => ?_, fun _ => ⟨d, hus, parse_of_items_finding hall log⟩⟩
    rw [hus] at hq
    cases hq

/-- The tokens of a function that returns nothing, as in `func f() { 1 }`. -/
def oneFunction (name : String) : List Token :=
  [⟨.funcWord, "func", ⟨0, 0⟩⟩, ⟨.ident, name, ⟨0, 5⟩⟩, ⟨.leftParen, "(", ⟨0, 6⟩⟩,
    ⟨.rightParen, ")", ⟨0, 7⟩⟩, ⟨.leftBrace, "\x7b", ⟨0, 9⟩⟩, ⟨.integer, "1", ⟨0, 11⟩⟩,
    ⟨.rightBrace, "\x7d", ⟨0, 13⟩⟩]

/-- The program of this function. -/
def oneProgram (name : String) : Program where
  arena := ⟨#[⟨.number "1" false, ⟨0, 11⟩⟩, ⟨.block [0], ⟨0, 9⟩⟩]⟩
  functions := [⟨⟨name, [], .void, ⟨0, 5⟩⟩, 1⟩]

/-- A function after a function, and a brace after a function. -/
theorem parse_append_functions :
    (parse (oneFunction "f") .empty).1 = some (oneProgram "f") ∧
    parse (oneFunction "f" ++ oneFunction "g") .empty
      = (some ((oneProgram "f").followedBy (oneProgram "g")), .empty) ∧
    ∃ d, parse [⟨.rightBrace, "\x7d", ⟨1, 0⟩⟩] .empty = (none, Log.empty.record d) ∧
      parse (oneFunction "f" ++ [⟨.rightBrace, "\x7d", ⟨1, 0⟩⟩]) .empty
        = (none, Log.empty.record d) := by
  have hfirst : (parse (oneFunction "f") .empty).1 = some (oneProgram "f") := by decide +kernel
  have hsecond : (parse (oneFunction "g") .empty).1 = some (oneProgram "g") := by decide +kernel
  exact ⟨hfirst, (parse_append _ (oneFunction "g") _ .empty .empty _ hfirst).1 _ hsecond,
    (parse_append _ [⟨.rightBrace, "\x7d", ⟨1, 0⟩⟩] _ .empty .empty _ hfirst).2
      (by decide +kernel)⟩

example : ((oneProgram "f").followedBy (oneProgram "g")).functions.map Function.body = [1, 3] := by
  decide

end Fern
