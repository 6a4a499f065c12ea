import Mathlib.Tactic
import Fern.Proofs.Parsing.Steps
import Fern.Proofs.Parsing.Walking

/-!
The parser ends, within the tokens, and not before where it began.

* `Walks`: a computation of a walker ends as one of the parser does, with an index between that of
  the beginning and the number of tokens, and further on by some tokens if it succeeds.
  `Walks.bind` puts computations together.
* `WalksAt`: this for all parts of the parser of expressions, with calls deep enough and steps
  enough for the tokens that are left; `walksAt` is the induction on the depth.
* `Ends`: the same with calls of any depth from some one on, the result being always the same.
* `parsing_ends`: the parts of the parser, and the parser, end with an index within the tokens.
-/

namespace Fern.Parsing

/-! ### Computations that end within the tokens -/

/-- The number of tokens that are left to be read. -/
def Walker.left (w : Walker) : ℕ := w.tokens.length - w.position

/-- The walker with one more expression stored. -/
def Walker.storing (w : Walker) (shape : Shape Tree) (l : Location) : Walker :=
  { w with arena := w.arena.add (shape.map Tree.id) l }

lemma Walker.length_rest (w : Walker) : w.state.rest.length = w.left := List.length_drop

/-- The result of a walker, as the parser gives it. -/
def outcome {α : Type} : Except Diagnostic α → Walker → EStateM.Result Failure State α
  | .ok a, w => .ok a w.state
  | .error d, w => .error (.finding d) w.state

/-- Begun within the tokens, `q` ends within them, no earlier than where it began, and by `least`
tokens later if it succeeds. The parser `p` has the same result and leaves as much to be read. -/
def Walks {α : Type} (least : ℕ) (q : Walk α) (p : Parse α) (w : Walker) : Prop :=
  w.position ≤ w.tokens.length →
    ∃ r w', q w = some (r, w') ∧ p w.state = outcome r w' ∧ w'.tokens = w.tokens ∧
      w.position ≤ w'.position ∧ w'.position ≤ w.tokens.length ∧
      ∀ a, r = .ok a → w.position + least ≤ w'.position

/-- A computation of the parser that reads no token and ends. -/
def IsStill {α : Type} (p : Parse α) : Prop := ∀ s,
  match p s with
  | .ok _ s' | .error (.finding _) s' => s'.rest = s.rest ∧ s'.last = s.last
  | .error .exhausted _ => False

lemma isStill_add (shape : Shape Tree) (l : Location) : IsStill (add shape l) :=
  fun _ => ⟨rfl, rfl⟩

lemma isStill_fail {α : Type} (p : Problem) (l : Location) : IsStill (fail p l : Parse α) :=
  fun _ => ⟨rfl, rfl⟩

lemma isStill_requireStatement (l : Location) : IsStill (requireStatement l) := by
  intro s
  unfold requireStatement
  rw [kind_bind]
  split_ifs <;> exact ⟨rfl, rfl⟩

lemma isStill_takeArena : IsStill takeArena := fun _ => ⟨rfl, rfl⟩

lemma isStill_join (rule : OperatorRule) (left : Tree) (operator : Token) (right : Tree) :
    IsStill (join rule left operator right) := by
  unfold join
  split
  · exact isStill_add _ _
  · exact isStill_fail _ _
  · split_ifs <;> exact isStill_add _ _

namespace Walks

variable {α β : Type} {q : Walk α} {p : Parse α} {l m : ℕ} {w : Walker}

lemma pure (a : α) : Walks 0 (Pure.pure a) (Pure.pure a) w := fun hw =>
  ⟨.ok a, w, rfl, rfl, rfl, le_rfl, hw, fun _ _ => le_rfl⟩

/-- Only the runs from the walker matter. -/
lemma congr {q' : Walk α} {p' : Parse α} (h : Walks l q p w) (hq : q' w = q w)
    (hp : p' w.state = p w.state) : Walks l q' p' w := by
  unfold Walks
  rw [hq, hp]
  exact h

lemma mono (h : Walks m q p w) (hl : l ≤ m) : Walks l q p w := by
  intro hw
  obtain ⟨r, w', hq, hp, htokens, hforward, hwithin, hleast⟩ := h hw
  exact ⟨r, w', hq, hp, htokens, hforward, hwithin, fun a ha => by have := hleast a ha; omega⟩

lemma bind {r : α → Walk β} {f : α → Parse β} (h : Walks m q p w)
    (hnext : ∀ a w', w'.left + m ≤ w.left → Walks (l - m) (r a) (f a) w') :
    Walks l (q >>= r) (p >>= f) w := by
  intro hw
  obtain ⟨result, w₁, hq, hp, htokens, hforward, hwithin, hleast⟩ := h hw
  have hbind : (q >>= r) w = (ExceptT.bindCont r result) w₁ := by
    simp only [Bind.bind, ExceptT.bind, ExceptT.mk, StateT.bind, hq, Option.bind]
  cases result with
  | error d =>
      refine ⟨.error d, w₁, hbind, ?_, htokens, hforward, hwithin, fun _ h => by cases h⟩
      simp only [Bind.bind, EStateM.bind, hp, outcome]
  | ok a =>
      have hprogress := hleast a rfl
      obtain ⟨result, w₂, hr, hf, htokens', hforward', hwithin', hleast'⟩ :=
        hnext a w₁ (by unfold Walker.left; rw [htokens]; omega) (htokens ▸ hwithin)
      refine ⟨result, w₂, hbind.trans hr, ?_, htokens'.trans htokens, hforward.trans hforward',
        htokens ▸ hwithin', fun b hb => ?_⟩
      · simp only [Bind.bind, EStateM.bind, hp, outcome]
        exact hf
      · have := hleast' b hb
        omega

lemma map {f : α → β} (h : Walks m q p w) : Walks m (f <$> q) (f <$> p) w := by
  rw [map_eq_pure_bind, map_eq_pure_bind]
  refine h.bind fun a w' _ => ?_
  rw [Nat.sub_self]
  exact .pure (f a)

/-! ### Elementary steps -/

/-- The next token does not change by being looked at. -/
lemma kind_bind {r : Token.Kind → Walk β} {f : Token.Kind → Parse β}
    (h : Walks l (r w.state.kind) (f w.state.kind) w) :
    Walks l (Walk.kind >>= r) (kind >>= f) w := h

/-- Of the state, the parser may look at the kind of the next token first. -/
lemma look_kind_bind {r : State → Walk β} {f : Token.Kind → Parse β}
    (h : Walks l (r w.state) (f w.state.kind) w) :
    Walks l (Walk.look >>= r) (kind >>= f) w := h

/-- Of the state, the parser may look at the place of the next token only. -/
lemma look_location_bind {r : State → Walk β} {f : Location → Parse β}
    (h : Walks l (r w.state) (f w.state.location) w) :
    Walks l (Walk.look >>= r) (location >>= f) w := h

lemma look_bind {r : State → Walk β} {f : State → Parse β}
    (h : Walks l (r w.state) (f w.state) w) : Walks l (Walk.look >>= r) (get >>= f) w := h

/-- The state is the same for both. -/
lemma get_bind {r : Walker → Walk β} {f : State → Parse β} (h : Walks l (r w) (f w.state) w) :
    Walks l (get >>= r) (get >>= f) w := h

lemma still (h : IsStill p) : Walks 0 (Walk.still p) p w := by
  intro hw
  have hs := h w.state
  unfold Walk.still
  cases hp : p w.state with
  | ok a s =>
      rw [hp] at hs
      refine ⟨.ok a, _, rfl, ?_, rfl, le_rfl, hw, fun _ _ => le_rfl⟩
      obtain ⟨rest, last, arena⟩ := s
      obtain ⟨rfl, rfl⟩ := hs
      rfl
  | error e s =>
      rw [hp] at hs
      cases e with
      | exhausted => exact hs.elim
      | finding d =>
          refine ⟨.error d, _, rfl, ?_, rfl, le_rfl, hw, fun _ h => by cases h⟩
          obtain ⟨rest, last, arena⟩ := s
          obtain ⟨rfl, rfl⟩ := hs
          rfl

lemma add (shape : Shape Tree) (place : Location) :
    Walks 0 (Walk.add shape place) (Parsing.add shape place) w :=
  .still (isStill_add shape place)

/-- Storing an expression leaves the walker where it is. -/
lemma add_bind {shape : Shape Tree} {place : Location} {r : Tree → Walk β} {f : Tree → Parse β}
    (h : ∀ t, Walks l (r t) (f t) (w.storing shape place)) :
    Walks l (Walk.add shape place >>= r) (Parsing.add shape place >>= f) w :=
  h _

/-- A step that only finds something ends where it began. -/
lemma still_error {d : Diagnostic} (h : p w.state = .error (.finding d) w.state) :
    Walks l (Walk.still p) p w := by
  intro hw
  have hstill : Walk.still p w = some (.error d, w) := by
    rw [Walk.still, h]
    rfl
  exact ⟨.error d, w, hstill, h, rfl, le_rfl, hw, fun _ h => by cases h⟩

lemma fail (problem : Problem) (place : Location) :
    Walks l (Walk.fail problem place : Walk α) (Parsing.fail problem place) w :=
  still_error rfl

lemma failUnexpected (expected : String) :
    Walks l (Walk.still (Parsing.failUnexpected expected) : Walk α)
      (Parsing.failUnexpected expected) w :=
  still_error rfl

/-- Where there is a next token, the walker is before the end. -/
lemma lt_of_kind (h : w.state.kind ≠ .endOfInput) : w.position < w.tokens.length := by
  by_contra hend
  exact h (by simp [State.kind, Walker.state, List.drop_eq_nil_of_le (not_lt.mp hend)])

lemma skip (h : w.state.kind ≠ .endOfInput) : Walks 1 Walk.skip Parsing.skip w := by
  intro _
  have hlt := lt_of_kind h
  refine ⟨.ok (), { w with position := w.position + 1 }, rfl, ?_, rfl, by simp, hlt, by simp⟩
  simp [Parsing.skip, outcome, Walker.state]

lemma advance (h : w.state.kind ≠ .endOfInput) : Walks 1 Walk.advance Parsing.advance w := by
  intro _
  have hlt := lt_of_kind h
  refine ⟨_, { w with position := w.position + 1 }, rfl, ?_, rfl, by simp, hlt, by simp⟩
  simp [Parsing.advance, outcome, Walker.state]

lemma expect (k : Token.Kind) (expected : String) :
    Walks 1 (Walk.expect k expected) (Parsing.expect k expected) w := by
  cases ht : w.tokens[w.position]? with
  | none =>
      have hrest : w.state.rest = [] := List.drop_eq_nil_of_le (List.getElem?_eq_none_iff.mp ht)
      refine (failUnexpected expected).congr ?_ ?_
      · simp only [Walk.expect, ht]
      · simp only [Parsing.expect, hrest]
  | some t =>
      obtain ⟨hlt, rfl⟩ := List.getElem?_eq_some_iff.mp ht
      have hrest : w.state.rest = w.tokens[w.position] :: w.tokens.drop (w.position + 1) :=
        List.drop_eq_getElem_cons hlt
      by_cases hk : w.tokens[w.position].kind = k
      · intro _
        refine ⟨.ok w.tokens[w.position], { w with position := w.position + 1 }, ?_, ?_, rfl,
          by simp, hlt, by simp⟩
        · simp only [Walk.expect, ht, if_pos hk]
        · simp only [Parsing.expect, hrest, if_pos hk]
          rfl
      · refine (failUnexpected expected).congr ?_ ?_
        · simp only [Walk.expect, ht, if_neg hk]
        · simp only [Parsing.expect, hrest, if_neg hk]

/-- A part that the next token decides on. -/
lemma optionally {k : Token.Kind} (hk : k ≠ .endOfInput)
    (h : ∀ w', w'.left + 1 ≤ w.left → Walks 0 q p w') :
    Walks 0 (Walk.optionally k q) (Parsing.optionally k p) w := by
  refine kind_bind ?_
  split_ifs with hkind
  · exact (skip (hkind ▸ hk)).bind fun _ w' hw' => (h w' hw').map
  · exact .pure none

lemma listUnless {k : Token.Kind} {q : Walk (List α)} {p : Parse (List α)} (h : Walks 0 q p w) :
    Walks 0 (Walk.listUnless k q) (Parsing.listUnless k p) w := by
  refine kind_bind ?_
  split_ifs
  · exact .pure []
  · exact h

end Walks

/-! ### Types -/

variable {w : Walker} {n m : ℕ}

/-- Reference marks are counted one by one. -/
lemma references_eq (s : State) :
    references s = (do
        if (← kind) = .ref then
          skip
          return (← references) + 1
        else return 0 : Parse ℕ) s := by
  obtain ⟨rest, last, arena⟩ := s
  cases rest with
  | nil => rfl
  | cons t ts =>
      rw [kind_bind]
      by_cases ht : t.kind = .ref <;>
        simp [references, skip, State.kind, isRef, ht, Bind.bind, EStateM.bind, Pure.pure,
          EStateM.pure]

lemma walks_references (hn : w.left < n) : Walks 0 (Walk.references n) references w := by
  induction n generalizing w with
  | zero => omega
  | succ n ih =>
      refine Walks.congr ?_ rfl (references_eq w.state)
      refine .kind_bind ?_
      split_ifs with hkind
      · refine (Walks.skip (by simp [hkind])).bind fun _ w₁ hw₁ => ?_
        exact (ih (by omega)).bind fun depth w₂ _ => .pure (depth + 1)
      · exact .pure 0

lemma walks_type (hn : w.left < n) : Walks 1 (Walk.type n) type w := by
  refine (walks_references hn).bind fun depth w₁ _ => (Walks.expect _ _).bind fun token w₂ _ => ?_
  cases Ty.ofName? token.lexeme with
  | none => exact .fail _ _
  | some base => exact .pure _

/-- A type that may be left out. -/
lemma walks_optionalType {k : Token.Kind} (hk : k ≠ .endOfInput) (hn : w.left < n) :
    Walks 0 (Walk.optionally k (Walk.type n)) (optionally k type) w :=
  .optionally hk fun w' _ => (walks_type (by omega)).mono (Nat.zero_le _)

/-! ### Expressions -/

lemma walks_statementEnd (statement : Tree) (w : Walker) :
    Walks 0 (Walk.statementEnd statement) (statementEnd statement) w := by
  have hother : Walks 0
      (if statement.endsWithBlock then return ()
        else Walk.fail (.expectedStatementEnd w.state.lexeme) w.state.location)
      (do if statement.endsWithBlock then return ()
          else fail (.expectedStatementEnd (← lexeme)) (← location)) w := by
    split_ifs
    · exact .pure ()
    · exact .fail _ _
  refine .look_kind_bind ?_
  cases hkind : w.state.kind with
  | semicolon => exact (Walks.skip (by simp [hkind])).mono (Nat.zero_le _)
  | rightBrace => exact .pure ()
  | _ => exact hother

/-- With calls of depth `n` and with `m` steps, the parts of the parser end within the tokens where
these are few enough. All but the operators after an operand and the statements of a block read a
token if they succeed. -/
structure WalksAt (n m : ℕ) : Prop where
  expression : ∀ w : Walker, 8 * w.left + 4 ≤ min n m →
    Walks 1 (Walk.expression .standard n) (expressionWithin .standard m) w
  climb : ∀ least left (w : Walker), 8 * w.left + 1 ≤ min n m →
    Walks 0 (Walk.climb .standard n least left) (climbWithin .standard m least left) w
  operand : ∀ w : Walker, 8 * w.left + 3 ≤ min n m →
    Walks 1 (Walk.operand .standard n) (operandWithin .standard m) w
  primary : ∀ rule (w : Walker), Tables.standard.primary w.state.kind = some rule →
    8 * w.left + 2 ≤ min n m →
    Walks 1 (Walk.primary .standard n rule) (primaryWithin .standard m rule) w
  arguments : ∀ w : Walker, 8 * w.left + 5 ≤ min n m →
    Walks 1 (Walk.arguments .standard n) (argumentsWithin .standard m) w
  block : ∀ w : Walker, 8 * w.left + 1 ≤ min n m →
    Walks 1 (Walk.block .standard n) (blockWithin .standard m) w
  statements : ∀ w : Walker, 8 * w.left + 5 ≤ min n m →
    Walks 0 (Walk.statements .standard n) (statementsWithin .standard m) w

/-- An expression begins with a token. -/
lemma ne_endOfInput_of_primary {k : Token.Kind} {rule : PrimaryRule}
    (h : Tables.standard.primary k = some rule) : k ≠ .endOfInput := by
  rintro rfl
  cases h

/-- An operator is a token. -/
lemma ne_endOfInput_of_operator {k : Token.Kind} {found : Power × OperatorRule}
    (h : Tables.standard.operator k = some found) : k ≠ .endOfInput := by
  rintro rfl
  cases h

namespace WalksAt

/-- Without a step no tokens are few enough. -/
lemma of_min_eq_zero (h : min n m = 0) : WalksAt n m where
  expression := fun _ hn => absurd hn (by omega)
  climb := fun _ _ _ hn => absurd hn (by omega)
  operand := fun _ hn => absurd hn (by omega)
  primary := fun _ _ _ hn => absurd hn (by omega)
  arguments := fun _ hn => absurd hn (by omega)
  block := fun _ hn => absurd hn (by omega)
  statements := fun _ hn => absurd hn (by omega)

variable (h : WalksAt n m)
include h

lemma expression_succ (w : Walker) (hn : 8 * w.left + 4 ≤ min (n + 1) (m + 1)) :
    Walks 1 (Walk.expression .standard (n + 1)) (expressionWithin .standard (m + 1)) w := by
  rw [Walk.expression, expressionWithin]
  exact (h.operand w (by omega)).bind fun left w₁ hw₁ => h.climb 0 left w₁ (by omega)

/-- An operator and its operand are read before any more operators, which are fewer then. -/
lemma climb_succ (least : ℤ) (left : Tree) (w : Walker)
    (hn : 8 * w.left + 1 ≤ min (n + 1) (m + 1)) :
    Walks 0 (Walk.climb .standard (n + 1) least left) (climbWithin .standard (m + 1) least left)
      w := by
  rw [Walk.climb, climbWithin]
  refine .kind_bind ?_
  cases hrule : Tables.standard.operator w.state.kind with
  | none => exact .pure left
  | some found =>
      obtain ⟨power, rule⟩ := found
      dsimp only
      split_ifs
      · exact .pure left
      refine (Walks.advance (ne_endOfInput_of_operator hrule)).bind fun operator w₁ hw₁ => ?_
      cases operator with
      | none => exact .pure left
      | some operator =>
          refine (h.operand w₁ (by omega)).bind fun first w₂ hw₂ => .kind_bind ?_
          have hright : Walks 0
              (if power.level < (Tables.standard.power w₂.state.kind).level then
                Walk.climb .standard n (power.level + 1) first else pure first)
              (if power.level < (Tables.standard.power w₂.state.kind).level then
                climbWithin .standard m (power.level + 1) first else pure first) w₂ := by
            split_ifs
            · exact h.climb _ first w₂ (by omega)
            · exact .pure first
          exact hright.bind fun right w₃ hw₃ =>
            (Walks.still (isStill_join rule left operator right)).bind fun joined w₄ hw₄ =>
              h.climb least joined w₄ (by omega)

lemma operand_succ (w : Walker) (hn : 8 * w.left + 3 ≤ min (n + 1) (m + 1)) :
    Walks 1 (Walk.operand .standard (n + 1)) (operandWithin .standard (m + 1)) w := by
  rw [Walk.operand, operandWithin]
  refine .look_kind_bind ?_
  cases hrule : Tables.standard.primary w.state.kind with
  | some rule => exact h.primary rule w hrule (by omega)
  | none => exact .fail _ _

lemma identifier (w : Walker) (hn : 8 * w.left + 2 ≤ min (n + 1) (m + 1)) :
    Walks 1 (Walk.primary .standard (n + 1) .identifier)
      (primaryWithin .standard (m + 1) .identifier) w := by
  rw [Walk.primary, primaryWithin]
  refine (Walks.expect _ _).bind fun token w₁ hw₁ => .kind_bind ?_
  cases hkind : w₁.state.kind with
  | leftParen =>
      refine (Walks.skip (by simp [hkind])).bind fun _ w₂ hw₂ => ?_
      refine (Walks.listUnless ((h.arguments w₂ (by omega)).mono (Nat.zero_le _))).bind
        fun arguments w₃ hw₃ => ?_
      exact (Walks.expect _ _).bind fun _ w₄ _ => .add _ _
  | leftBracket =>
      refine .add_bind fun operand => .look_location_bind ?_
      have hnext : w₁.state.kind ≠ .endOfInput := by simp [hkind]
      refine (Walks.skip (w := w₁.storing _ _) hnext).bind fun _ w₂ hw₂ => ?_
      change w₂.left + 1 ≤ w₁.left at hw₂
      refine (h.expression w₂ (by omega)).bind fun index w₃ hw₃ => ?_
      exact (Walks.expect _ _).bind fun _ w₄ _ => .add _ _
  | _ => exact .add _ _

lemma cond (w : Walker) (hn : 8 * w.left + 2 ≤ min (n + 1) (m + 1)) :
    Walks 1 (Walk.primary .standard (n + 1) .cond) (primaryWithin .standard (m + 1) .cond) w := by
  rw [Walk.primary, primaryWithin]
  refine (Walks.expect _ _).bind fun start w₁ hw₁ => ?_
  refine (h.expression w₁ (by omega)).bind fun condition w₂ hw₂ => ?_
  refine (h.block w₂ (by omega)).bind fun thenBlock w₃ hw₃ => ?_
  have helse : Walks 0 (Walk.optionally .elseWord (Walk.block .standard n))
      (optionally .elseWord (blockWithin .standard m)) w₃ :=
    .optionally (by decide) fun w₄ hw₄ => (h.block w₄ (by omega)).mono (Nat.zero_le _)
  exact helse.bind fun elseBlock w₄ _ => .add _ _

lemma jump (w : Walker) (hkind : w.state.kind ≠ .endOfInput)
    (hn : 8 * w.left + 2 ≤ min (n + 1) (m + 1)) :
    Walks 1 (Walk.primary .standard (n + 1) .jump) (primaryWithin .standard (m + 1) .jump) w := by
  rw [Walk.primary, primaryWithin]
  refine .look_bind ((Walks.skip hkind).bind fun _ w₁ hw₁ => .kind_bind ?_)
  have hvalue : Walks 0
      (if w.state.kind = .returnWord ∧ w₁.state.kind ≠ .semicolon ∧ w₁.state.kind ≠ .rightBrace then
        some <$> Walk.expression .standard n else pure none)
      (if w.state.kind = .returnWord ∧ w₁.state.kind ≠ .semicolon ∧ w₁.state.kind ≠ .rightBrace then
        some <$> expressionWithin .standard m else pure none) w₁ := by
    split_ifs
    · exact ((h.expression w₁ (by omega)).mono (Nat.zero_le _)).map
    · exact .pure none
  exact hvalue.bind fun value w₂ _ => .add _ _

/-- An expression begins with a token, which is read before the parts. A block is the exception: it
begins with the same brace, and is read with a step less. -/
lemma primary_succ (rule : PrimaryRule) (w : Walker)
    (hrule : Tables.standard.primary w.state.kind = some rule)
    (hn : 8 * w.left + 2 ≤ min (n + 1) (m + 1)) :
    Walks 1 (Walk.primary .standard (n + 1) rule) (primaryWithin .standard (m + 1) rule) w := by
  have hkind := ne_endOfInput_of_primary hrule
  cases rule with
  | identifier => exact h.identifier w hn
  | cond => exact h.cond w hn
  | jump => exact h.jump w hkind hn
  | operand => exact absurd hrule (by cases w.state.kind <;> decide)
  | expression => exact absurd hrule (by cases w.state.kind <;> decide)
  | number | boolean =>
      rw [Walk.primary, primaryWithin]
      exact .look_bind ((Walks.skip hkind).bind fun _ w₁ _ => .add _ _)
  | string | char =>
      rw [Walk.primary, primaryWithin]
      exact (Walks.expect _ _).bind fun token w₁ _ => .add _ _
  | unary =>
      rw [Walk.primary, primaryWithin]
      exact .look_bind ((Walks.skip hkind).bind fun _ w₁ hw₁ =>
        (h.operand w₁ (by omega)).bind fun operand w₂ _ => .add _ _)
  | grouping =>
      rw [Walk.primary, primaryWithin]
      refine (Walks.expect _ _).bind fun _ w₁ hw₁ => ?_
      exact (h.expression w₁ (by omega)).bind fun inner w₂ _ =>
        (Walks.expect _ _).bind fun _ w₃ _ => .pure inner
  | block =>
      rw [Walk.primary, primaryWithin]
      exact h.block w (by omega)
  | binding =>
      rw [Walk.primary, primaryWithin]
      refine (Walks.expect _ _).bind fun start w₁ hw₁ => ?_
      refine (Walks.expect _ _).bind fun name w₂ hw₂ => ?_
      refine (walks_optionalType (by decide) (by omega)).bind fun stated w₃ hw₃ => ?_
      refine (Walks.expect _ _).bind fun _ w₄ hw₄ => ?_
      exact (h.expression w₄ (by omega)).bind fun value w₅ _ => .add _ _

/-- After an argument and a comma there are fewer tokens for the others. -/
lemma arguments_succ (w : Walker) (hn : 8 * w.left + 5 ≤ min (n + 1) (m + 1)) :
    Walks 1 (Walk.arguments .standard (n + 1)) (argumentsWithin .standard (m + 1)) w := by
  rw [Walk.arguments, argumentsWithin]
  refine (h.expression w (by omega)).bind fun argument w₁ hw₁ => .kind_bind ?_
  cases hkind : w₁.state.kind with
  | comma =>
      refine (Walks.skip (by simp [hkind])).bind fun _ w₂ hw₂ => ?_
      exact (h.arguments w₂ (by omega)).bind fun others w₃ _ => .pure (argument :: others)
  | rightParen => exact .pure [argument]
  | _ => exact .failUnexpected _

lemma block_succ (w : Walker) (hn : 8 * w.left + 1 ≤ min (n + 1) (m + 1)) :
    Walks 1 (Walk.block .standard (n + 1)) (blockWithin .standard (m + 1)) w := by
  rw [Walk.block, blockWithin]
  refine (Walks.expect _ _).bind fun start w₁ hw₁ => ?_
  refine (Walks.still (isStill_requireStatement _)).bind fun _ w₂ hw₂ => ?_
  refine (h.statements w₂ (by omega)).bind fun statements w₃ _ => ?_
  exact (Walks.expect _ _).bind fun _ w₄ _ => .add _ _

/-- A statement has a token, so that there are fewer for the others. -/
lemma statements_succ (w : Walker) (hn : 8 * w.left + 5 ≤ min (n + 1) (m + 1)) :
    Walks 0 (Walk.statements .standard (n + 1)) (statementsWithin .standard (m + 1)) w := by
  rw [Walk.statements, statementsWithin]
  refine .kind_bind ?_
  split_ifs
  · exact .pure []
  · refine (h.expression w (by omega)).bind fun statement w₁ hw₁ => ?_
    refine (walks_statementEnd statement w₁).bind fun _ w₂ hw₂ => ?_
    exact (h.statements w₂ (by omega)).bind fun others w₃ _ => .pure (statement :: others)

end WalksAt

/-- **Enough steps.** With calls of any depth and any number of steps, the parts of the parser end
within the tokens where these are few enough. -/
lemma walksAt (n m : ℕ) : WalksAt n m := by
  induction n generalizing m with
  | zero => exact .of_min_eq_zero (Nat.zero_min m)
  | succ n ih =>
      cases m with
      | zero => exact .of_min_eq_zero (Nat.min_zero _)
      | succ m =>
          have h := ih m
          exact {
            expression := h.expression_succ
            climb := h.climb_succ
            operand := h.operand_succ
            primary := h.primary_succ
            arguments := h.arguments_succ
            block := h.block_succ
            statements := h.statements_succ }

/-- The steps that are allowed suffice for the tokens that are left. -/
lemma Walks.withinBudget {α : Type} {q : Walk α} {p : ℕ → Parse α} {l : ℕ}
    (h : ∀ m, 8 * w.left + 8 ≤ m → Walks l q (p m) w) : Walks l q (Parsing.withinBudget p) w :=
  h (8 * (w.state.rest.length + 1)) (by rw [Walker.length_rest]; omega)

lemma walks_expression (hn : 8 * w.left + 8 ≤ n) :
    Walks 1 (Walk.expression .standard n) (expression .standard) w :=
  .withinBudget fun m hm => (walksAt n m).expression w (by omega)

lemma walks_operand (hn : 8 * w.left + 8 ≤ n) :
    Walks 1 (Walk.operand .standard n) (operand .standard) w :=
  .withinBudget fun m hm => (walksAt n m).operand w (by omega)

lemma walks_primary {rule : PrimaryRule} (hrule : Tables.standard.primary w.state.kind = some rule)
    (hn : 8 * w.left + 8 ≤ n) :
    Walks 1 (Walk.primary .standard n rule) (primary .standard rule) w :=
  .withinBudget fun m hm => (walksAt n m).primary rule w hrule (by omega)

lemma walks_block (hn : 8 * w.left + 8 ≤ n) :
    Walks 1 (Walk.block .standard n) (block .standard) w :=
  .withinBudget fun m hm => (walksAt n m).block w (by omega)

/-! ### Functions, declarations and programs -/

lemma walks_parameter (hn : w.left < n) : Walks 1 (Walk.parameter n) parameter w := by
  refine (Walks.expect _ _).bind fun name w₁ _ => (Walks.expect _ _).bind fun _ w₂ _ => ?_
  exact ((walks_type (by omega)).mono (Nat.zero_le _)).bind fun ty w₃ _ => .pure _

lemma walks_parametersWithin (hn : w.left + 1 < n) (hm : w.left < m) :
    Walks 0 (Walk.parameters n) (parametersWithin m) w := by
  induction n generalizing m w with
  | zero => omega
  | succ n ih =>
      obtain ⟨m, rfl⟩ := Nat.exists_eq_succ_of_ne_zero (Nat.ne_zero_of_lt hm)
      rw [Walk.parameters, parametersWithin]
      refine (walks_parameter (by omega)).bind fun first w₁ hw₁ => .kind_bind ?_
      cases hkind : w₁.state.kind with
      | comma =>
          refine (Walks.skip (by simp [hkind])).bind fun _ w₂ hw₂ => ?_
          exact (ih (by omega) (by omega)).bind fun others w₃ _ => .pure (first :: others)
      | rightParen => exact .pure [first]
      | _ => exact .failUnexpected _

lemma walks_prototype (hn : w.left < n) : Walks 1 (Walk.prototype n) prototype w := by
  refine (Walks.expect _ _).bind fun _ w₁ _ => (Walks.expect _ _).bind fun name w₂ _ => ?_
  refine (Walks.expect _ _).bind fun _ w₃ _ => ?_
  have hparameters : Walks 0 (Walk.parameters n) (withinBudget parametersWithin) w₃ :=
    .withinBudget fun m hm => walks_parametersWithin (by omega) (by omega)
  refine (Walks.listUnless hparameters).bind fun parameters w₄ _ => ?_
  refine (Walks.expect _ _).bind fun _ w₅ _ => ?_
  exact (walks_optionalType (by decide) (by omega)).bind fun returnType w₆ _ => .pure _

lemma walks_function (hn : 8 * w.left + 8 ≤ n) :
    Walks 1 (Walk.function .standard n) (function .standard) w := by
  refine (walks_prototype (by omega)).bind fun prototype w₁ _ => ?_
  exact ((walks_block (by omega)).mono (Nat.zero_le _)).bind fun body w₂ _ => .pure _

lemma walks_declaration (hn : w.left < n) : Walks 1 (Walk.declaration n) declaration w := by
  refine (Walks.expect _ _).bind fun _ w₁ _ => ?_
  refine ((walks_prototype (by omega)).mono (Nat.zero_le _)).bind fun prototype w₂ _ => ?_
  exact ((Walks.expect _ _).mono (Nat.zero_le _)).bind fun _ w₃ _ => .pure prototype

lemma walks_item (hn : 8 * w.left + 8 ≤ n) :
    Walks 1 (Walk.item .standard n) (item .standard) w := by
  refine .look_kind_bind ?_
  cases w.state.kind with
  | funcWord => exact (walks_function hn).map
  | externWord => exact (walks_declaration (by omega)).map
  | _ => exact .fail _ _

/-- Every item has a token, so that the items end with the tokens. -/
lemma walks_itemsWithin (hn : 8 * w.left + 9 ≤ n) (hm : w.left < m) :
    Walks 0 (Walk.items .standard n) (itemsWithin .standard m) w := by
  induction n generalizing m w with
  | zero => omega
  | succ n ih =>
      obtain ⟨m, rfl⟩ := Nat.exists_eq_succ_of_ne_zero (Nat.ne_zero_of_lt hm)
      rw [Walk.items, itemsWithin]
      refine .get_bind ?_
      by_cases hlt : w.position < w.tokens.length
      · have hrest : w.state.rest.isEmpty = false := by simpa [Walker.state] using hlt
        simp only [if_pos hlt, hrest, Bool.false_eq_true, if_false]
        refine (walks_item (by omega)).bind fun first w₁ hw₁ => ?_
        exact (ih (by omega) (by omega)).bind fun others w₂ _ => .pure (first :: others)
      · have hrest : w.state.rest.isEmpty = true := by simpa [Walker.state] using hlt
        simp only [if_neg hlt, hrest, if_true]
        exact .pure []

lemma walks_items (hn : 8 * w.left + 9 ≤ n) :
    Walks 0 (Walk.items .standard n) (Parsing.withinBudget (itemsWithin .standard)) w :=
  .withinBudget fun m hm => walks_itemsWithin hn (by omega)

lemma walks_program (hn : 8 * w.left + 9 ≤ n) :
    Walks 0 (Walk.program .standard n) (program .standard) w :=
  (walks_items hn).bind fun _ _ _ => (Walks.still isStill_takeArena).bind fun _ _ _ => .pure _

/-- All tokens are read as items, or a problem is found. -/
lemma items_ok_or_finding (tokens : List Token) :
    (∃ is s', withinBudget (itemsWithin .standard) (.ofTokens tokens) = .ok is s') ∨
      ∃ d s', withinBudget (itemsWithin .standard) (.ofTokens tokens) = .error (.finding d) s' := by
  have hwalks : Walks 0 _ (withinBudget (itemsWithin .standard)) { tokens := tokens } :=
    walks_items le_rfl
  obtain ⟨r, w', -, hrun, -⟩ := hwalks (Nat.zero_le _)
  cases r with
  | ok is => exact .inl ⟨is, w'.state, hrun⟩
  | error d => exact .inr ⟨d, w'.state, hrun⟩

/-! ### Termination -/

/-- The state tells where a walker within its tokens is. -/
lemma outcome_injective {α : Type} {r r' : Except Diagnostic α} {w w' : Walker}
    (h : outcome r w = outcome r' w') (htokens : w.tokens = w'.tokens)
    (hw : w.position ≤ w.tokens.length) (hw' : w'.position ≤ w'.tokens.length) :
    r = r' ∧ w = w' := by
  have hboth : r = r' ∧ w.state = w'.state := by
    cases r <;> cases r' <;> simp_all [outcome]
  obtain ⟨hr, hstate⟩ := hboth
  have hleft : w.left = w'.left := by
    rw [← Walker.length_rest, ← Walker.length_rest, hstate]
  unfold Walker.left at hleft
  rw [htokens] at hw hleft
  exact ⟨hr, Walker.ext htokens (by omega) (congrArg State.arena hstate)⟩

/-- Begun with the walker `w`, the computation `q` ends: with calls of any depth from some one on it
has the same result. The walker is not before where it began then, still within the tokens, and
further on by `least` tokens if the computation succeeds. The parser `p` has the same result and
leaves as much to be read. -/
def Ends {α : Type} (least : ℕ) (q : ℕ → Walk α) (p : Parse α) (w : Walker) : Prop :=
  ∃ r w', (∃ n₀, ∀ n ≥ n₀, q n w = some (r, w')) ∧ p w.state = outcome r w' ∧
    w'.tokens = w.tokens ∧ w.position ≤ w'.position ∧ w'.position ≤ w.tokens.length ∧
    ∀ a, r = .ok a → w.position + least ≤ w'.position

/-- What ends within the tokens, with calls of any depth that is enough, always has the same result:
that of the parser. -/
lemma Ends.of_walks {α : Type} {q : ℕ → Walk α} {p : Parse α} {l n₀ : ℕ}
    (hw : w.position ≤ w.tokens.length) (h : ∀ n ≥ n₀, Walks l (q n) p w) : Ends l q p w := by
  obtain ⟨r, w', -, hp, htokens, hforward, hwithin, hleast⟩ := h n₀ le_rfl hw
  refine ⟨r, w', ⟨n₀, fun n hn => ?_⟩, hp, htokens, hforward, hwithin, hleast⟩
  obtain ⟨r₁, w₁, hq₁, hp₁, htokens₁, -, hwithin₁, -⟩ := h n hn hw
  obtain ⟨rfl, rfl⟩ := outcome_injective (hp₁.symm.trans hp) (htokens₁.trans htokens.symm)
    (htokens₁ ▸ hwithin₁) (htokens ▸ hwithin)
  exact hq₁

/-- The parser ends on all tokens, with an index within them. -/
lemma parse_ends (tokens : List Token) (log : Log) :
    ∃ position ≤ tokens.length, ∃ n₀, ∀ n ≥ n₀,
      Walk.parse tokens log n = some (Fern.parse tokens log, position) := by
  have hends : Ends 0 (Walk.program .standard) (program .standard) { tokens := tokens } :=
    .of_walks (Nat.zero_le _) fun n hn => walks_program hn
  obtain ⟨r, w', ⟨n₀, hwalk⟩, hparse, -, -, hwithin, -⟩ := hends
  refine ⟨w'.position, hwithin, n₀, fun n hn => ?_⟩
  replace hparse : (program .standard).run (.ofTokens tokens) = outcome r w' := hparse
  rw [Walk.parse, hwalk n hn, Fern.parse, hparse]
  cases r <;> rfl

/-- **Termination.** From every index within some tokens, each part of the parser that may be begun
there ends, with an index that is no smaller and still within the tokens, and a larger one if it
succeeds. So the parser ends on all tokens, with an index within them. -/
theorem parsing_ends :
    (∀ w : Walker, w.position ≤ w.tokens.length →
      Ends 1 (Walk.expression .standard) (expression .standard) w ∧
      Ends 1 (Walk.operand .standard) (operand .standard) w ∧
      Ends 1 (Walk.block .standard) (block .standard) w ∧
      Ends 1 Walk.type type w ∧
      Ends 1 Walk.prototype prototype w ∧
      Ends 1 (Walk.function .standard) (function .standard) w ∧
      Ends 1 Walk.declaration declaration w ∧
      ∀ rule, Tables.standard.primary w.state.kind = some rule →
        Ends 1 (fun n => Walk.primary .standard n rule) (primary .standard rule) w) ∧
    ∀ tokens log, ∃ position ≤ tokens.length, ∃ n₀, ∀ n ≥ n₀,
      Walk.parse tokens log n = some (Fern.parse tokens log, position) := by
  refine ⟨fun w hw => ⟨?_, ?_, ?_, ?_, ?_, ?_, ?_, fun rule hrule => ?_⟩, parse_ends⟩
  · exact .of_walks hw fun n hn => walks_expression hn
  · exact .of_walks hw fun n hn => walks_operand hn
  · exact .of_walks hw fun n hn => walks_block hn
  · exact .of_walks hw fun n (hn : n ≥ w.left + 1) => walks_type hn
  · exact .of_walks hw fun n (hn : n ≥ w.left + 1) => walks_prototype hn
  · exact .of_walks hw fun n hn => walks_function hn
  · exact .of_walks hw fun n (hn : n ≥ w.left + 1) => walks_declaration hn
  · exact .of_walks hw fun n hn => walks_primary hrule hn

/-- The walker at the second token of a sum that breaks off after its sign. -/
def brokenSum : Walker where
  tokens := [⟨.leftParen, "(", ⟨0, 0⟩⟩, ⟨.integer, "1", ⟨0, 1⟩⟩, ⟨.plus, "+", ⟨0, 3⟩⟩]
  position := 1

/-- The sum has no second operand, which is found at the end of the tokens; its first one is read
alone. -/
theorem brokenSum_ends :
    (∃ w' n₀, (∀ n ≥ n₀, Walk.expression .standard n brokenSum
        = some (.error (.error (.expectedExpression "end of file") ⟨0, 3⟩), w')) ∧
      w'.position ≤ 3) ∧
    (∃ t w' n₀, (∀ n ≥ n₀, Walk.primary .standard n .number brokenSum = some (.ok t, w')) ∧
      1 < w'.position) ∧
    ∃ position ≤ 3, ∃ n₀, ∀ n ≥ n₀, Walk.parse brokenSum.tokens .empty n
      = some (Fern.parse brokenSum.tokens .empty, position) := by
  obtain ⟨hparts, hparse⟩ := parsing_ends
  obtain ⟨hexpression, -, -, -, -, -, -, hprimary⟩ := hparts brokenSum (by decide)
  refine ⟨?_, ?_, hparse brokenSum.tokens .empty⟩
  · obtain ⟨r, w', ⟨n₀, hwalk⟩, hresult, -, -, hwithin, -⟩ := hexpression
    cases r with
    | ok t => cases hresult
    | error d =>
        obtain ⟨hfinding, -⟩ := EStateM.Result.error.inj hresult
        cases Failure.finding.inj hfinding
        exact ⟨w', n₀, hwalk, hwithin⟩
  · obtain ⟨r, w', ⟨n₀, hwalk⟩, hresult, -, -, -, hprogress⟩ := hprimary .number rfl
    cases r with
    | ok t => exact ⟨t, w', n₀, hwalk, hprogress t rfl⟩
    | error d => cases hresult

end Fern.Parsing
