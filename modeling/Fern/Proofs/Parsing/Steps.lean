import Mathlib.Tactic
import Fern.Parsing.Item

/-!
What the elementary steps of the parser do, and how those of a form make up a run on it.

* `State.moved`, `State.added`, `State.built`: the state after reading up to some tokens, the state
  with one more expression stored, and this expression.
* `expect_eq_ok`, `add_eq_ok` and their companions: a step that succeeds, and what it leaves.
-/

namespace Fern.Parsing

namespace State

/-- The state with the tokens `ts` still to be read. -/
def moved (s : State) (ts : List Token) : State := { s with rest := ts }

/-- The state with one more expression stored. -/
def added (s : State) (shape : Shape Tree) (l : Location) : State :=
  { s with arena := s.arena.add (shape.map Tree.id) l }

/-- The expression that is stored next. -/
def built (s : State) (shape : Shape Tree) (l : Location) : Tree := .node s.arena.size l shape

@[simp] lemma rest_moved (s : State) (ts : List Token) : (s.moved ts).rest = ts := rfl

@[simp] lemma moved_moved (s : State) (ts us : List Token) : (s.moved ts).moved us = s.moved us :=
  rfl

@[simp] lemma kind_moved_cons (s : State) (t : Token) (ts : List Token) :
    (s.moved (t :: ts)).kind = t.kind := rfl

@[simp] lemma rest_added (s : State) (shape : Shape Tree) (l : Location) :
    (s.added shape l).rest = s.rest := rfl

/-- The next token is of a kind of which there are tokens only if there is one. -/
lemma exists_of_kind {s : State} {k : Token.Kind} (h : s.kind = k) (hk : k ≠ .endOfInput) :
    ∃ t ts, s.rest = t :: ts ∧ t.kind = k := by
  unfold kind at h
  cases hs : s.rest with
  | nil => exact absurd (by simpa [hs] using h.symm) hk
  | cons t ts => exact ⟨t, ts, rfl, by simpa [hs] using h⟩

lemma kind_of_rest {s : State} {t : Token} {ts : List Token} (h : s.rest = t :: ts) :
    s.kind = t.kind := by
  simp [kind, h]

lemma kind_eq_of_rest_eq {s s' : State} (h : s'.rest = s.rest) : s'.kind = s.kind := by
  simp [kind, h]

lemma location_of_rest {s : State} {t : Token} {ts : List Token} (h : s.rest = t :: ts) :
    s.location = t.location := by
  simp [location, h]

end State

/-! ### Elementary steps -/

section Steps

variable {α β : Type} {s s' s'' : State}

lemma bind_eq_ok {x : Parse α} {f : α → Parse β} {b : β} :
    (x >>= f) s = .ok b s'' ↔ ∃ a s₁, x s = .ok a s₁ ∧ f a s₁ = .ok b s'' := by
  simp only [bind, EStateM.bind]
  cases hx : x s with
  | ok a s₁ => simp
  | error e s₁ => simp

lemma bind_of_ok {x : Parse α} {f : α → Parse β} {a : α} (h : x s = .ok a s') :
    (x >>= f) s = f a s' := by
  simp only [bind, EStateM.bind, h]

lemma bind_of_error {x : Parse α} {f : α → Parse β} {e : Failure} (h : x s = .error e s') :
    (x >>= f) s = .error e s' := by
  simp only [bind, EStateM.bind, h]

lemma pure_eq_ok {a b : α} : (pure a : Parse α) s = .ok b s' ↔ b = a ∧ s' = s := by
  simp [pure, EStateM.pure, eq_comm]

lemma map_eq_ok {x : Parse α} {f : α → β} {b : β} :
    (f <$> x) s = .ok b s' ↔ ∃ a, x s = .ok a s' ∧ b = f a := by
  rw [map_eq_pure_bind, bind_eq_ok]
  constructor
  · rintro ⟨a, s₁, hx, hf⟩
    obtain ⟨rfl, rfl⟩ := pure_eq_ok.mp hf
    exact ⟨a, hx, rfl⟩
  · rintro ⟨a, hx, rfl⟩
    exact ⟨a, s', hx, rfl⟩

lemma throw_ne_ok {e : Failure} {a : α} : (throw e : Parse α) s ≠ .ok a s' := by
  intro h
  cases h

lemma fail_ne_ok {p : Problem} {l : Location} {a : α} : (fail p l : Parse α) s ≠ .ok a s' := by
  intro h
  cases h

lemma failUnexpected_ne_ok {e : String} {a : α} :
    (failUnexpected e : Parse α) s ≠ .ok a s' := by
  intro h
  cases h

lemma skip_eq_ok {u : Unit} : skip s = .ok u s' ↔ s' = s.moved s.rest.tail := by
  simp [skip, State.moved, eq_comm]

lemma expect_eq_ok {k : Token.Kind} {e : String} {t : Token} :
    expect k e s = .ok t s' ↔ ∃ ts, s.rest = t :: ts ∧ t.kind = k ∧ s' = s.moved ts := by
  unfold expect
  cases hs : s.rest with
  | nil => exact iff_of_false failUnexpected_ne_ok (by simp)
  | cons t₁ ts =>
      by_cases hk : t₁.kind = k
      · simp only [if_pos hk, EStateM.Result.ok.injEq, List.cons.injEq]
        constructor
        · rintro ⟨rfl, rfl⟩
          exact ⟨ts, ⟨rfl, rfl⟩, hk, rfl⟩
        · rintro ⟨_, ⟨rfl, rfl⟩, -, rfl⟩
          exact ⟨rfl, rfl⟩
      · simp only [if_neg hk]
        refine iff_of_false failUnexpected_ne_ok ?_
        rintro ⟨_, h, rfl, -⟩
        exact hk (by rw [(List.cons.inj h).1])

lemma add_eq_ok {shape : Shape Tree} {l : Location} {t : Tree} :
    add shape l s = .ok t s' ↔ t = s.built shape l ∧ s' = s.added shape l := by
  simp [add, State.built, State.added, eq_comm]

lemma get_bind {f : State → Parse β} : (get >>= f) s = f s s := rfl

lemma kind_bind {f : Token.Kind → Parse β} : (kind >>= f) s = f s.kind s := rfl

lemma location_bind {f : Location → Parse β} : (location >>= f) s = f s.location s := rfl

lemma lexeme_bind {f : String → Parse β} : (lexeme >>= f) s = f s.lexeme s := rfl

lemma skip_bind {f : Unit → Parse β} : (skip >>= f) s = f () (s.moved s.rest.tail) := rfl

lemma add_bind {shape : Shape Tree} {l : Location} {f : Tree → Parse β} :
    (add shape l >>= f) s = f (s.built shape l) (s.added shape l) := rfl

lemma advance_bind {f : Option Token → Parse β} :
    (advance >>= f) s = f s.rest.head? (s.moved s.rest.tail) := rfl

lemma expect_bind_eq_ok {k : Token.Kind} {e : String} {f : Token → Parse β} {b : β} :
    (expect k e >>= f) s = .ok b s' ↔
      ∃ t ts, s.rest = t :: ts ∧ t.kind = k ∧ f t (s.moved ts) = .ok b s' := by
  simp only [bind_eq_ok, expect_eq_ok]
  constructor
  · rintro ⟨t, s₁, ⟨ts, hs, hk, rfl⟩, hf⟩
    exact ⟨t, ts, hs, hk, hf⟩
  · rintro ⟨t, ts, hs, hk, hf⟩
    exact ⟨t, s.moved ts, ⟨ts, hs, hk, rfl⟩, hf⟩

lemma expect_bind {k : Token.Kind} {e : String} {f : Token → Parse β} {t : Token}
    {ts : List Token} (hs : s.rest = t :: ts) (hk : t.kind = k) :
    (expect k e >>= f) s = f t (s.moved ts) := by
  have h : expect k e s = .ok t (s.moved ts) := expect_eq_ok.mpr ⟨ts, hs, hk, rfl⟩
  simp only [bind, EStateM.bind, h]

/-- A part after a token of one kind is there if the next token is of this kind. -/
lemma optionally_eq_ok {k : Token.Kind} {p : Parse α} {r : Option α} :
    optionally k p s = .ok r s' ↔
      (s.kind = k ∧ ∃ a, p (s.moved s.rest.tail) = .ok a s' ∧ r = some a) ∨
        s.kind ≠ k ∧ r = none ∧ s' = s := by
  by_cases h : s.kind = k
  · simp [optionally, kind_bind, skip_bind, h, map_eq_ok]
  · simp [optionally, kind_bind, h, pure_eq_ok]

/-- A list is empty exactly if the next token is of the kind that ends it. -/
lemma listUnless_eq_ok {k : Token.Kind} {p : Parse (List α)} {r : List α} :
    listUnless k p s = .ok r s' ↔
      (s.kind = k ∧ r = [] ∧ s' = s) ∨ s.kind ≠ k ∧ p s = .ok r s' := by
  by_cases h : s.kind = k
  · simp [listUnless, kind_bind, h, pure_eq_ok]
  · simp [listUnless, kind_bind, h]

/-- Storing an expression always succeeds. -/
lemma add_run (shape : Shape Tree) (l : Location) (s : State) :
    add shape l s = .ok (s.built shape l) (s.added shape l) := rfl

end Steps

/-! ### Forms -/

section Forms

variable {T : Tables} {n : ℕ} {s s' : State} {t : Tree} {token : Token} {ts : List Token}

attribute [local simp] expressionWithin climbWithin operandWithin primaryWithin argumentsWithin
  blockWithin statementsWithin

lemma expressionWithin_eq_ok :
    expressionWithin T (n + 1) s = .ok t s' ↔
      ∃ left s₁, operandWithin T n s = .ok left s₁ ∧ climbWithin T n 0 left s₁ = .ok t s' := by
  simp only [expressionWithin, bind_eq_ok]

lemma operandWithin_eq_ok :
    operandWithin T (n + 1) s = .ok t s' ↔
      ∃ rule, T.primary s.kind = some rule ∧ primaryWithin T n rule s = .ok t s' := by
  simp only [operandWithin, kind_bind]
  cases h : T.primary s.kind with
  | none => simp [lexeme_bind, location_bind, fail_ne_ok]
  | some rule => simp

lemma number_eq_ok (hs : s.rest = token :: ts) :
    primaryWithin T (n + 1) .number s = .ok t s' ↔
      add (.number s.lexeme (token.kind = .float)) token.location (s.moved ts) = .ok t s' := by
  simp [number, get_bind, skip_bind, State.kind_of_rest hs, State.location_of_rest hs, hs]

lemma string_eq_ok :
    primaryWithin T (n + 1) .string s = .ok t s' ↔ ∃ token ts, s.rest = token :: ts ∧
      token.kind = .string ∧ add (.string token.lexeme) token.location (s.moved ts) = .ok t s' := by
  simp only [primaryWithin, string, expect_bind_eq_ok]

lemma char_eq_ok :
    primaryWithin T (n + 1) .char s = .ok t s' ↔ ∃ token ts, s.rest = token :: ts ∧
      token.kind = .char ∧ add (.char token.lexeme) token.location (s.moved ts) = .ok t s' := by
  simp only [primaryWithin, char, expect_bind_eq_ok]

lemma boolean_eq_ok (hs : s.rest = token :: ts) :
    primaryWithin T (n + 1) .boolean s = .ok t s' ↔
      add (.boolean (token.kind = .trueWord)) token.location (s.moved ts) = .ok t s' := by
  simp [boolean, get_bind, skip_bind, State.kind_of_rest hs, State.location_of_rest hs, hs]

lemma unary_eq_ok (hs : s.rest = token :: ts) :
    primaryWithin T (n + 1) .unary s = .ok t s' ↔
      ∃ operand s₁, operandWithin T n (s.moved ts) = .ok operand s₁ ∧
        add (.unary token.kind operand) token.location s₁ = .ok t s' := by
  simp only [primaryWithin, get_bind, skip_bind, bind_eq_ok, State.kind_of_rest hs,
    State.location_of_rest hs, hs, List.tail_cons]

/-- A name before a parenthesis is called. -/
lemma call_eq_ok {opening : Token} (hs : s.rest = token :: opening :: ts)
    (hname : token.kind = .ident) (hopening : opening.kind = .leftParen) :
    primaryWithin T (n + 1) .identifier s = .ok t s' ↔
      ∃ arguments s₁ closing ts₁,
        listUnless .rightParen (argumentsWithin T n) (s.moved ts) = .ok arguments s₁ ∧
          s₁.rest = closing :: ts₁ ∧ closing.kind = .rightParen ∧
          add (.call token.lexeme arguments) token.location (s₁.moved ts₁) = .ok t s' := by
  simp only [primaryWithin, expect_bind hs hname, kind_bind, State.kind_moved_cons, hopening,
    skip_bind, bind_eq_ok (x := listUnless _ _), expect_bind_eq_ok]
  simp

/-- A name before a bracket is indexed. -/
lemma subscript_eq_ok {opening : Token} (hs : s.rest = token :: opening :: ts)
    (hname : token.kind = .ident) (hopening : opening.kind = .leftBracket) :
    primaryWithin T (n + 1) .identifier s = .ok t s' ↔
      ∃ index s₁ closing ts₁,
        expressionWithin T n ((s.moved ts).added (.var token.lexeme) token.location)
            = .ok index s₁ ∧
          s₁.rest = closing :: ts₁ ∧ closing.kind = .rightBracket ∧
          add (.subscript (s.built (.var token.lexeme) token.location) index) opening.location
            (s₁.moved ts₁) = .ok t s' := by
  simp only [primaryWithin, expect_bind hs hname, kind_bind, State.kind_moved_cons, hopening,
    add_bind, location_bind, skip_bind, bind_eq_ok (x := expressionWithin T n), expect_bind_eq_ok,
    ← exists_and_left]
  rfl

/-- A name before anything else stands for itself. -/
lemma var_eq_ok (hs : s.rest = token :: ts) (hname : token.kind = .ident)
    (hparen : (s.moved ts).kind ≠ .leftParen) (hbracket : (s.moved ts).kind ≠ .leftBracket) :
    primaryWithin T (n + 1) .identifier s = .ok t s' ↔
      add (.var token.lexeme) token.location (s.moved ts) = .ok t s' := by
  simp only [primaryWithin, expect_bind hs hname, kind_bind]

lemma grouping_eq_ok (hs : s.rest = token :: ts) (htoken : token.kind = .leftParen) :
    primaryWithin T (n + 1) .grouping s = .ok t s' ↔
      ∃ inner s₁ closing ts₁, expressionWithin T n (s.moved ts) = .ok inner s₁ ∧
        s₁.rest = closing :: ts₁ ∧ closing.kind = .rightParen ∧ t = inner ∧ s' = s₁.moved ts₁ := by
  simp only [primaryWithin, expect_bind hs htoken, bind_eq_ok (x := expressionWithin T n),
    expect_bind_eq_ok, pure_eq_ok, ← exists_and_left]

lemma binding_eq_ok (hs : s.rest = token :: ts) (htoken : token.kind = .letWord) :
    primaryWithin T (n + 1) .binding s = .ok t s' ↔
      ∃ name us stated s₁ equal ts₁ value s₂, ts = name :: us ∧ name.kind = .ident ∧
        optionally .colon type (s.moved us) = .ok stated s₁ ∧
        s₁.rest = equal :: ts₁ ∧ equal.kind = .equal ∧
        expressionWithin T n (s₁.moved ts₁) = .ok value s₂ ∧
        add (.binding name.lexeme stated value) token.location s₂ = .ok t s' := by
  simp only [primaryWithin, expect_bind hs htoken, expect_bind_eq_ok, State.rest_moved,
    State.moved_moved, bind_eq_ok (x := optionally _ _), bind_eq_ok (x := expressionWithin T n),
    ← exists_and_left]

lemma cond_eq_ok (hs : s.rest = token :: ts) (htoken : token.kind = .ifWord) :
    primaryWithin T (n + 1) .cond s = .ok t s' ↔
      ∃ condition s₁ thenBlock s₂ elseBlock s₃,
        expressionWithin T n (s.moved ts) = .ok condition s₁ ∧
          blockWithin T n s₁ = .ok thenBlock s₂ ∧
          optionally .elseWord (blockWithin T n) s₂ = .ok elseBlock s₃ ∧
          add (.cond condition thenBlock elseBlock) token.location s₃ = .ok t s' := by
  simp only [primaryWithin, expect_bind hs htoken, bind_eq_ok, ← exists_and_left]

/-- A `return` takes a value unless a statement can end there. -/
lemma valueReturn_eq_ok (hs : s.rest = token :: ts)
    (h : token.kind = .returnWord ∧ (s.moved ts).kind ≠ .semicolon ∧
      (s.moved ts).kind ≠ .rightBrace) :
    primaryWithin T (n + 1) .jump s = .ok t s' ↔
      ∃ value s₁, expressionWithin T n (s.moved ts) = .ok value s₁ ∧
        add (.jump token.kind (some value)) token.location s₁ = .ok t s' := by
  simp only [primaryWithin, get_bind, skip_bind, kind_bind, State.kind_of_rest hs,
    State.location_of_rest hs, hs, List.tail_cons, if_pos h, bind_eq_ok, map_eq_ok]
  constructor
  · rintro ⟨_, s₁, ⟨value, hvalue, rfl⟩, hadd⟩
    exact ⟨value, s₁, hvalue, hadd⟩
  · rintro ⟨value, s₁, hvalue, hadd⟩
    exact ⟨_, s₁, ⟨value, hvalue, rfl⟩, hadd⟩

lemma bareJump_eq_ok (hs : s.rest = token :: ts)
    (h : ¬ (token.kind = .returnWord ∧ (s.moved ts).kind ≠ .semicolon ∧
      (s.moved ts).kind ≠ .rightBrace)) :
    primaryWithin T (n + 1) .jump s = .ok t s' ↔
      add (.jump token.kind none) token.location (s.moved ts) = .ok t s' := by
  simp only [primaryWithin, get_bind, skip_bind, kind_bind, State.kind_of_rest hs,
    State.location_of_rest hs, hs, List.tail_cons, if_neg h, pure_bind]

lemma argumentsWithin_eq_ok {r : List Tree} :
    argumentsWithin T (n + 1) s = .ok r s' ↔ ∃ argument s₁,
      expressionWithin T n s = .ok argument s₁ ∧
        ((s₁.kind = .comma ∧ ∃ others,
            argumentsWithin T n (s₁.moved s₁.rest.tail) = .ok others s' ∧ r = argument :: others) ∨
          s₁.kind = .rightParen ∧ r = [argument] ∧ s' = s₁) := by
  simp only [argumentsWithin, bind_eq_ok (x := expressionWithin T n), kind_bind]
  refine exists_congr fun argument => exists_congr fun s₁ => and_congr_right fun _ => ?_
  generalize s₁.kind = k
  split
  · simp only [skip_bind, bind_eq_ok, pure_eq_ok]
    simp [eq_comm]
  · simp [pure_eq_ok]
  · next hcomma hparen =>
      replace hcomma : k ≠ .comma := hcomma
      replace hparen : k ≠ .rightParen := hparen
      simp [hcomma, hparen, failUnexpected_ne_ok]

lemma requireStatement_eq_ok {l : Location} {u : Unit} :
    requireStatement l s = .ok u s' ↔ s.kind ≠ .rightBrace ∧ s' = s := by
  by_cases h : s.kind = .rightBrace
  · simp [requireStatement, kind_bind, h, fail_ne_ok]
  · simp [requireStatement, kind_bind, h, pure_eq_ok]

lemma blockWithin_eq_ok :
    blockWithin T (n + 1) s = .ok t s' ↔ ∃ opening ts statements s₁ closing ts₁,
      s.rest = opening :: ts ∧ opening.kind = .leftBrace ∧ (s.moved ts).kind ≠ .rightBrace ∧
        statementsWithin T n (s.moved ts) = .ok statements s₁ ∧ s₁.rest = closing :: ts₁ ∧
        closing.kind = .rightBrace ∧
        add (.block statements) opening.location (s₁.moved ts₁) = .ok t s' := by
  simp only [blockWithin, expect_bind_eq_ok, bind_eq_ok (x := requireStatement _),
    requireStatement_eq_ok, bind_eq_ok (x := statementsWithin _ _)]
  constructor
  · rintro ⟨opening, ts, hs, hopening, _, _, ⟨hnonempty, rfl⟩, statements, s₁, hstatements, closing,
      ts₁, hadd⟩
    exact ⟨opening, ts, statements, s₁, closing, ts₁, hs, hopening, hnonempty, hstatements, hadd⟩
  · rintro ⟨opening, ts, statements, s₁, closing, ts₁, hs, hopening, hnonempty, hstatements, hadd⟩
    exact ⟨opening, ts, hs, hopening, (), _, ⟨hnonempty, rfl⟩, statements, s₁, hstatements, closing,
      ts₁, hadd⟩

/-- A statement ends before a semicolon, which is read, before the brace that closes the block, and
after a block. -/
lemma statementEnd_eq_ok {e : Tree} {u : Unit} :
    statementEnd e s = .ok u s' ↔
      (s.kind = .semicolon ∧ s' = s.moved s.rest.tail) ∨ (s.kind = .rightBrace ∧ s' = s) ∨
        (s.kind ≠ .semicolon ∧ s.kind ≠ .rightBrace ∧ e.endsWithBlock ∧ s' = s) := by
  simp only [statementEnd, kind_bind]
  generalize s.kind = k
  split
  · simp [skip_eq_ok]
  · simp [pure_eq_ok]
  · next hsemicolon hbrace =>
      replace hsemicolon : k ≠ .semicolon := hsemicolon
      replace hbrace : k ≠ .rightBrace := hbrace
      cases he : e.endsWithBlock with
      | false => simp [hsemicolon, hbrace, lexeme_bind, location_bind, fail_ne_ok]
      | true => simp [hsemicolon, hbrace, pure_eq_ok]

lemma statementsWithin_eq_ok {r : List Tree} :
    statementsWithin T (n + 1) s = .ok r s' ↔
      (s.kind = .rightBrace ∧ r = [] ∧ s' = s) ∨
        s.kind ≠ .rightBrace ∧ ∃ statement s₁ u s₂ others,
          expressionWithin T n s = .ok statement s₁ ∧ statementEnd statement s₁ = .ok u s₂ ∧
            statementsWithin T n s₂ = .ok others s' ∧ r = statement :: others := by
  by_cases h : s.kind = .rightBrace
  · simp [kind_bind, h, pure_eq_ok]
  · simp [kind_bind, h, bind_eq_ok, map_eq_ok]

end Forms

end Fern.Parsing
