import Mathlib.Tactic
import Fern.Proofs.Parsing.Concatenation
import Fern.Proofs.Parsing.Findings
import Fern.Proofs.Parsing.Targets

/-!
Parsing is all or nothing, and what makes it nothing in statements of operands and operators.

* `parse_all_or_none`: all tokens are read, or one error is recorded where a token is.
* `PlainStatement`: a chain of literals and names with the token that ends it; `Misplaced` and
  `FirstMisplaced` are its assignments to what is no name.
* `expression_settles`: such a statement is read or refused, wherever it stands.
* `BeginsFunction`: tokens that begin a function with such statements. `parse_of_firstMisplaced` and
  `exists_parse_of_placed`: how the parser ends on them.
* `parsing_all_or_nothing`: **all or nothing**, with the condition for assignments.
-/

namespace Fern.Parsing

/-! ### All or nothing -/

/-- All tokens are read and nothing is recorded, or there is no program and one error of the parser
is recorded, at the place of a token. -/
lemma parse_all_or_none (tokens : List Token) (log : Log) :
    (∃ p s', program .standard (.ofTokens tokens) = .ok p s' ∧ s'.rest = [] ∧
      parse tokens log = (some p, log)) ∨
    ∃ d : Diagnostic, parse tokens log = (none, log.record d) ∧ d.FromParser ∧
      ∃ t ∈ tokens, t.location = d.location := by
  rcases items_ok_or_finding tokens with ⟨is, s', his⟩ | ⟨d, s', hd⟩
  · have hprogram := program_eq_ok.mpr ⟨is, s', his, rfl, rfl⟩
    exact .inl ⟨_, _, hprogram, (itemsWithin_ends his).2, parse_of_program_eq_ok hprogram⟩
  · have hprogram : program .standard (.ofTokens tokens) = .error (.finding d) s' :=
      bind_of_error hd
    exact .inr ⟨d, parse_of_items_finding hd log, finding_of_program hprogram⟩

/-! ### Statements of operands and operators -/

/-- A chain of literals and names, with the token that ends the statement. -/
structure PlainStatement where
  first : Token
  links : List (Token × Token)
  ending : Token
  first_isAtom : IsAtom first
  links_plain : ∀ link ∈ links, IsPlainLink link
  ending_ends : EndsStatement ending

namespace PlainStatement

/-- The tokens of the statement, with the one that ends it. -/
def words (c : PlainStatement) : List Token := chain c.first c.links ++ [c.ending]

/-- The operator at an index assigns to what is no name: it is not the first one, or the first
operand is no name. -/
def Misplaced (c : PlainStatement) (i : ℕ) : Prop :=
  Parsing.Misplaced (c.first.kind = .ident) c.links i

/-- The first operator that assigns to what is no name. -/
def FirstMisplaced (c : PlainStatement) (operator : Token) : Prop :=
  ∃ i, (c.links[i]?.map Prod.fst = some operator ∧ c.Misplaced i) ∧ ∀ j < i, ¬ c.Misplaced j

/-- No operator assigns to what is no name. -/
def Placed (c : PlainStatement) : Prop := ∀ i, ¬ c.Misplaced i

end PlainStatement

variable {c : PlainStatement} {earlier : List PlainStatement} {n m : ℕ} {s : State}
  {ts tail tokens after : List Token} {operator : Token} {log : Log}

lemma PlainStatement.length_words (c : PlainStatement) :
    c.words.length = 2 * c.links.length + 2 := by
  rw [words, chain, List.length_append, List.length_cons, length_linkWords, List.length_singleton]

lemma PlainStatement.words_append (c : PlainStatement) (ts : List Token) :
    c.words ++ ts = chain c.first c.links ++ c.ending :: ts := by
  rw [words, List.append_assoc, List.singleton_append]

/-- A statement is read up to its end, or its first misplaced operator is refused. -/
lemma PlainStatement.expressionWithin_settles (c : PlainStatement) (hn : c.words.length + 1 ≤ n)
    (hs : s.rest = c.words ++ ts) :
    Settles (c.ending :: ts) (misplaced? (c.first.kind = .ident) c.links)
      (expressionWithin .standard n s) := by
  rw [c.words_append] at hs
  rw [c.length_words] at hn
  exact Parsing.expressionWithin_settles c.first_isAtom c.links_plain c.ending_ends (by omega) hs

lemma PlainStatement.placed_iff :
    c.Placed ↔ misplaced? (c.first.kind = .ident) c.links = none :=
  misplaced?_eq_none.symm

lemma PlainStatement.firstMisplaced_iff :
    c.FirstMisplaced operator ↔ misplaced? (c.first.kind = .ident) c.links = some operator :=
  misplaced?_eq_some.symm

lemma PlainStatement.expressionWithin_of_placed (h : c.Placed) (hn : c.words.length + 1 ≤ n)
    (hs : s.rest = c.words ++ ts) :
    ∃ t s', expressionWithin .standard n s = .ok t s' ∧ s'.rest = c.ending :: ts := by
  have hsettles := c.expressionWithin_settles hn hs
  rw [PlainStatement.placed_iff.mp h] at hsettles
  cases hrun : expressionWithin .standard n s with
  | ok t s' =>
      rw [hrun] at hsettles
      exact ⟨t, s', rfl, hsettles.2⟩
  | error e s' =>
      rw [hrun] at hsettles
      obtain ⟨_, hsome, -⟩ := hsettles
      cases hsome

lemma PlainStatement.expressionWithin_of_firstMisplaced (h : c.FirstMisplaced operator)
    (hn : c.words.length + 1 ≤ n) (hs : s.rest = c.words ++ ts) :
    ∃ s', expressionWithin .standard n s
      = .error (.finding (.error .invalidAssignmentTarget operator.location)) s' := by
  have hsettles := c.expressionWithin_settles hn hs
  rw [PlainStatement.firstMisplaced_iff.mp h] at hsettles
  cases hrun : expressionWithin .standard n s with
  | ok t s' =>
      rw [hrun] at hsettles
      cases hsettles.1
  | error e s' =>
      rw [hrun] at hsettles
      obtain ⟨_, hsome, rfl⟩ := hsettles
      cases hsome
      exact ⟨s', rfl⟩

/-- If an operator is misplaced, one is the first. -/
lemma PlainStatement.exists_firstMisplaced {i : ℕ} (h : c.Misplaced i) :
    ∃ operator, c.FirstMisplaced operator := by
  cases hfirst : misplaced? (c.first.kind = .ident) c.links with
  | none => exact absurd h (PlainStatement.placed_iff.mpr hfirst i)
  | some operator => exact ⟨operator, PlainStatement.firstMisplaced_iff.mpr hfirst⟩

/-- **Statements.** Wherever it stands, a statement of operands and operators is refused for an
assignment exactly if one is misplaced, at the first such operator, and read up to its end
otherwise. -/
lemma PlainStatement.expression_settles (c : PlainStatement) (s : State) (ts : List Token) :
    ((∃ l s', expression .standard (s.moved (c.words ++ ts))
        = .error (.finding (.error .invalidAssignmentTarget l)) s') ↔ ∃ i, c.Misplaced i) ∧
    (∀ operator, c.FirstMisplaced operator → ∃ s', expression .standard (s.moved (c.words ++ ts))
      = .error (.finding (.error .invalidAssignmentTarget operator.location)) s') ∧
    (c.Placed → ∃ t s', expression .standard (s.moved (c.words ++ ts)) = .ok t s' ∧
      s'.rest = c.ending :: ts) := by
  have hn : c.words.length + 1 ≤ 8 * ((c.words ++ ts).length + 1) := by
    rw [List.length_append]
    omega
  have hplaced (h : c.Placed) := PlainStatement.expressionWithin_of_placed h hn
    (State.rest_moved s (c.words ++ ts))
  have hfirst {operator} (h : c.FirstMisplaced operator) :=
    PlainStatement.expressionWithin_of_firstMisplaced h hn (State.rest_moved s (c.words ++ ts))
  refine ⟨⟨?_, ?_⟩, fun operator => hfirst, hplaced⟩
  · rintro ⟨l, s', hrun⟩
    by_contra hnone
    obtain ⟨t, s'', hread, -⟩ := hplaced (not_exists.mp hnone)
    cases hrun.symm.trans hread
  · rintro ⟨i, hi⟩
    obtain ⟨operator, hoperator⟩ := PlainStatement.exists_firstMisplaced hi
    exact ⟨_, hfirst hoperator⟩

/-! ### Bodies -/

/-- A statement begins with an operand. -/
lemma PlainStatement.kind_ne (hs : s.rest = c.words ++ ts) : s.kind ≠ .rightBrace := by
  intro hkind
  have hatom := c.first_isAtom
  rw [c.words_append] at hs
  rw [IsAtom, ← State.kind_of_rest hs, hkind] at hatom
  revert hatom
  decide

/-- A placed statement with a semicolon is read, and the other statements follow. -/
lemma PlainStatement.statementsWithin_cons (h : c.Placed) (hending : c.ending.kind = .semicolon)
    (hn : c.words.length + 1 ≤ n) (hs : s.rest = c.words ++ ts) :
    ∃ t s', s'.rest = ts ∧ statementsWithin .standard (n + 1) s
      = ((t :: ·) <$> statementsWithin .standard n) s' := by
  obtain ⟨t, s₁, hread, hs₁⟩ := PlainStatement.expressionWithin_of_placed h hn hs
  have hend : statementEnd t s₁ = .ok () (s₁.moved ts) := statementEnd_eq_ok.mpr
    (.inl ⟨(State.kind_of_rest hs₁).trans hending, by rw [hs₁, List.tail_cons]⟩)
  refine ⟨t, s₁.moved ts, rfl, ?_⟩
  rw [statementsWithin, kind_bind, if_neg (PlainStatement.kind_ne hs), bind_of_ok hread,
    bind_of_ok hend, map_eq_pure_bind]

/-- Placed statements with semicolons are read, and the other statements follow. -/
lemma statementsWithin_earlier (hearlier : ∀ c ∈ earlier, c.Placed ∧ c.ending.kind = .semicolon)
    (hn : (earlier.flatMap PlainStatement.words).length + m + 1 ≤ n) (hm : 1 ≤ m)
    (hs : s.rest = earlier.flatMap PlainStatement.words ++ tail) :
    ∃ (f : List Tree → List Tree) (k : ℕ) (s' : State), m ≤ k ∧ s'.rest = tail ∧
      statementsWithin .standard n s = (f <$> statementsWithin .standard k) s' := by
  induction earlier generalizing n s with
  | nil => exact ⟨id, n, s, by omega, hs, by rw [id_map]⟩
  | cons c earlier ih =>
      obtain ⟨⟨hplaced, hending⟩, hearlier⟩ := List.forall_mem_cons.mp hearlier
      rw [List.flatMap_cons, List.length_append] at hn
      rw [List.flatMap_cons, List.append_assoc] at hs
      obtain ⟨n, rfl⟩ : ∃ k, n = k + 1 := Nat.exists_eq_succ_of_ne_zero (by omega)
      have hlength := c.length_words
      obtain ⟨t, s₁, hs₁, hrun⟩ :=
        PlainStatement.statementsWithin_cons (n := n) hplaced hending (by omega) hs
      obtain ⟨f, k, s', hk, hs', hothers⟩ := ih (n := n) hearlier (by omega) hs₁
      refine ⟨(t :: ·) ∘ f, k, s', hk, hs', ?_⟩
      rw [hrun, comp_map]
      simp only [Functor.map, EStateM.map] at hothers ⊢
      rw [hothers]

/-- A misplaced operator is refused in a body too. -/
lemma PlainStatement.statementsWithin_of_firstMisplaced (h : c.FirstMisplaced operator)
    (hn : c.words.length + 1 ≤ n) (hs : s.rest = c.words ++ ts) :
    ∃ s', statementsWithin .standard (n + 1) s
      = .error (.finding (.error .invalidAssignmentTarget operator.location)) s' := by
  obtain ⟨s', hrun⟩ := PlainStatement.expressionWithin_of_firstMisplaced h hn hs
  refine ⟨s', ?_⟩
  rw [statementsWithin, kind_bind, if_neg (PlainStatement.kind_ne hs), bind_of_error hrun]

/-- What follows the last statement of a function at the end of the tokens: the closing brace, if
the statement does not end with it. -/
def PlainStatement.Closes (c : PlainStatement) (after : List Token) : Prop :=
  (c.ending.kind = .rightBrace ∧ after = []) ∨
    c.ending.kind = .semicolon ∧ ∃ closing, after = [closing] ∧ closing.kind = .rightBrace

/-- The last statement of a body is read, and the closing brace is left. -/
lemma PlainStatement.statementsWithin_last (h : c.Placed) (hafter : c.Closes after)
    (hn : c.words.length + 1 ≤ n) (hs : s.rest = c.words ++ after) :
    ∃ ts s' closing, statementsWithin .standard (n + 1) s = .ok ts s' ∧ s'.rest = [closing] ∧
      closing.kind = .rightBrace := by
  obtain ⟨n, rfl⟩ : ∃ k, n = k + 1 := Nat.exists_eq_succ_of_ne_zero (by omega)
  have hlast {s' : State} {closing : Token} (hs' : s'.rest = [closing])
      (hclosing : closing.kind = .rightBrace) : statementsWithin .standard (n + 1) s' = .ok [] s' :=
    statementsWithin_eq_ok.mpr (.inl ⟨(State.kind_of_rest hs').trans hclosing, rfl, rfl⟩)
  rcases hafter with ⟨hending, rfl⟩ | ⟨hending, closing, rfl, hclosing⟩
  · obtain ⟨t, s₁, hread, hs₁⟩ := PlainStatement.expressionWithin_of_placed h hn hs
    have hend : statementEnd t s₁ = .ok () s₁ := statementEnd_eq_ok.mpr
      (.inr (.inl ⟨(State.kind_of_rest hs₁).trans hending, rfl⟩))
    exact ⟨[t], s₁, c.ending, statementsWithin_eq_ok.mpr (.inr ⟨PlainStatement.kind_ne hs, t, s₁,
      (), s₁, [], hread, hend, hlast hs₁ hending, rfl⟩), hs₁, hending⟩
  · obtain ⟨t, s', hs', hrun⟩ := PlainStatement.statementsWithin_cons h hending hn hs
    rw [hrun]
    exact ⟨[t], s', closing, map_eq_ok.mpr ⟨[], hlast hs' hclosing, rfl⟩, hs', hclosing⟩

/-! ### Functions -/

/-- The tokens begin a function whose body begins with the statements, and go on with `after`. -/
structure BeginsFunction (tokens : List Token) (statements : List PlainStatement)
    (after : List Token) : Prop where
  intro ::
  head : ∃ p opening, opening.kind = .leftBrace ∧
    IsPrototype tokens p (opening :: (statements.flatMap PlainStatement.words ++ after))

/-- A finding in the first item is what is found. -/
lemma parse_of_item_finding {d : Diagnostic} {s' : State} (hne : tokens ≠ [])
    (h : item .standard (.ofTokens tokens) = .error (.finding d) s') (log : Log) :
    parse tokens log = (none, log.record d) := by
  have hnonempty : (State.ofTokens tokens).rest.isEmpty = false := List.isEmpty_eq_false_iff.mpr hne
  have hitems : withinBudget (itemsWithin .standard) (.ofTokens tokens)
      = .error (.finding d) s' := by
    rw [withinBudget, Nat.mul_succ, itemsWithin, get_bind, hnonempty, if_neg Bool.false_ne_true]
    exact bind_of_error h
  exact parse_of_items_finding hitems log

/-- An item up to the end of the tokens is a program. -/
lemma exists_parse_of_item {i : Item} {s' : State} (hne : tokens ≠ [])
    (h : item .standard (.ofTokens tokens) = .ok i s') (hs' : s'.rest = []) :
    ∃ q, ∀ log, parse tokens log = (some q, log) := by
  have hitems : withinBudget (itemsWithin .standard) (.ofTokens tokens) = .ok [i] s' := by
    rw [withinBudget, Nat.mul_succ]
    exact itemsWithin_eq_ok.mpr
      (.inr ⟨hne, i, s', [], h, itemsWithin_eq_ok.mpr (.inl ⟨hs', rfl, rfl⟩), rfl⟩)
  exact ⟨_, fun log => parse_of_items_ok hitems log⟩

/-- A block ends as its statements do if these fail. -/
lemma blockWithin_of_error {opening : Token} {e : Failure} {s' : State}
    (hs : s.rest = opening :: ts) (hopening : opening.kind = .leftBrace)
    (hstart : (s.moved ts).kind ≠ .rightBrace)
    (h : statementsWithin .standard n (s.moved ts) = .error e s') :
    blockWithin .standard (n + 1) s = .error e s' := by
  have hrequire : requireStatement opening.location (s.moved ts) = .ok () (s.moved ts) :=
    requireStatement_eq_ok.mpr ⟨hstart, rfl⟩
  rw [blockWithin, expect_bind hs hopening, bind_of_ok hrequire, bind_of_error h]

/-- A function ends as its body does if this fails. -/
lemma item_of_error {p : Prototype} {e : Failure} {s₁ s' : State} (hkind : s.kind = .funcWord)
    (hhead : prototype s = .ok p s₁) (h : block .standard s₁ = .error e s') :
    item .standard s = .error e s' := by
  rw [item, kind_bind, hkind]
  change (Item.function <$> function .standard) s = .error e s'
  rw [map_eq_pure_bind]
  refine bind_of_error ?_
  rw [function, bind_of_ok hhead, bind_of_error h]

variable {statements : List PlainStatement}

/-- The parser comes to the statements of the function, and ends as it ends on these. -/
lemma BeginsFunction.exists_body (h : BeginsFunction tokens statements after)
    (hne : statements ≠ []) :
    ∃ (n : ℕ) (s : State), (statements.flatMap PlainStatement.words ++ after).length + 3 ≤ n ∧
      s.rest = statements.flatMap PlainStatement.words ++ after ∧
      (∀ d s', statementsWithin .standard n s = .error (.finding d) s' →
        ∀ log, parse tokens log = (none, log.record d)) ∧
      ∀ ts s' closing, statementsWithin .standard n s = .ok ts s' → s'.rest = [closing] →
        closing.kind = .rightBrace → ∃ q, ∀ log, parse tokens log = (some q, log) := by
  obtain ⟨p, opening, hopening, hprototype⟩ := h.head
  generalize hbody : statements.flatMap PlainStatement.words ++ after = body at hprototype
  have hkind : (State.ofTokens tokens).kind = .funcWord :=
    (State.kind_eq rfl).trans (headKind_of_isPrototype hprototype)
  have htokens : tokens ≠ [] := List.ne_nil_of_length_pos (by have := hprototype.length_lt; omega)
  have hhead : prototype (.ofTokens tokens)
      = .ok p ((State.ofTokens tokens).moved (opening :: body)) :=
    prototype_complete hprototype rfl (by rw [State.kind_moved_cons, hopening]; decide)
  have hstart : ((State.ofTokens tokens).moved body).kind ≠ .rightBrace := by
    obtain ⟨c, statements, rfl⟩ := List.exists_cons_of_ne_nil hne
    rw [List.flatMap_cons, List.append_assoc] at hbody
    exact PlainStatement.kind_ne hbody.symm
  obtain ⟨n, hn⟩ : ∃ n, 8 * ((opening :: body).length + 1) = n + 1 :=
    Nat.exists_eq_succ_of_ne_zero (by omega)
  have hblock : block .standard ((State.ofTokens tokens).moved (opening :: body))
      = blockWithin .standard (n + 1) ((State.ofTokens tokens).moved (opening :: body)) := by
    rw [block, withinBudget, State.rest_moved, hn]
  refine ⟨n, (State.ofTokens tokens).moved body, by rw [List.length_cons] at hn; omega, rfl,
    fun d s' hrun => ?_, fun ts s' closing hrun hs' hclosing => ?_⟩
  · exact parse_of_item_finding htokens
      (item_of_error hkind hhead (hblock.trans (blockWithin_of_error rfl hopening hstart hrun)))
  · have hread := hblock.trans (blockWithin_eq_ok.mpr ⟨opening, body, ts, s', closing, [], rfl,
      hopening, hstart, hrun, hs', hclosing, add_run _ _ _⟩)
    exact exists_parse_of_item htokens (item_eq_ok.mpr
      (.inl ⟨hkind, _, function_eq_ok.mpr ⟨p, _, _, hhead, hread, rfl⟩, rfl⟩)) rfl

/-- After placed statements the parser comes to the next one, and ends as it ends on this and what
follows. -/
lemma BeginsFunction.exists_last (h : BeginsFunction tokens (earlier ++ [c]) after)
    (hearlier : ∀ c ∈ earlier, c.Placed ∧ c.ending.kind = .semicolon) :
    ∃ (n : ℕ) (s : State), c.words.length + 1 ≤ n ∧ s.rest = c.words ++ after ∧
      (∀ d s', statementsWithin .standard (n + 1) s = .error (.finding d) s' →
        ∀ log, parse tokens log = (none, log.record d)) ∧
      ∀ ts s' closing, statementsWithin .standard (n + 1) s = .ok ts s' → s'.rest = [closing] →
        closing.kind = .rightBrace → ∃ q, ∀ log, parse tokens log = (some q, log) := by
  obtain ⟨n, s, hn, hs, hfinding, hok⟩ := h.exists_body (by simp)
  rw [List.flatMap_append, List.flatMap_singleton, List.append_assoc] at hn hs
  rw [List.length_append, List.length_append] at hn
  obtain ⟨f, k, s', hk, hs', hrun⟩ :=
    statementsWithin_earlier (n := n) (m := c.words.length + 2) hearlier (by omega) (by omega) hs
  obtain ⟨k, rfl⟩ : ∃ m, k = m + 1 := Nat.exists_eq_succ_of_ne_zero (by omega)
  refine ⟨k, s', by omega, hs', fun d s'' hlast => hfinding d s'' ?_, fun ts s'' closing hlast =>
    hok (f ts) s'' closing ?_⟩
  · rw [hrun, map_eq_pure_bind]
    exact bind_of_error hlast
  · rw [hrun]
    exact map_eq_ok.mpr ⟨ts, hlast, rfl⟩

/-- **Refused functions.** The first misplaced operator of a statement after placed ones is what is
found. -/
lemma parse_of_firstMisplaced (h : BeginsFunction tokens (earlier ++ [c]) after)
    (hearlier : ∀ c ∈ earlier, c.Placed ∧ c.ending.kind = .semicolon)
    (hc : c.FirstMisplaced operator) (log : Log) :
    parse tokens log = (none, log.recordError .invalidAssignmentTarget operator.location) := by
  obtain ⟨n, s, hn, hs, hfinding, -⟩ := h.exists_last hearlier
  obtain ⟨s', hrun⟩ := PlainStatement.statementsWithin_of_firstMisplaced hc hn hs
  exact hfinding _ s' hrun log

/-- **Accepted functions.** A function with placed statements up to its closing brace is a program.
-/
lemma exists_parse_of_placed (h : BeginsFunction tokens (earlier ++ [c]) after)
    (hearlier : ∀ c ∈ earlier, c.Placed ∧ c.ending.kind = .semicolon) (hc : c.Placed)
    (hafter : c.Closes after) (log : Log) : ∃ q, parse tokens log = (some q, log) := by
  obtain ⟨n, s, hn, hs, -, hok⟩ := h.exists_last hearlier
  obtain ⟨ts, s', closing, hrun, hs', hclosing⟩ :=
    PlainStatement.statementsWithin_last hc hafter hn hs
  obtain ⟨q, hq⟩ := hok ts s' closing hrun hs' hclosing
  exact ⟨q, hq log⟩

/-- **All or nothing.** The parser reads all tokens and records nothing, or it makes no program and
records one error of its own, without notes and at the place of a token; it records no warning. A
statement of literals and names with operators between them is refused for an assignment exactly if
an operator of an assignment is not the first one or comes after a literal, at the first such
operator, and it is read up to its end otherwise. So a function is refused at the first such
operator of its statements, and accepted if there is none. -/
theorem parsing_all_or_nothing :
    (∀ tokens log,
      (∃ p s', program .standard (.ofTokens tokens) = .ok p s' ∧ s'.rest = [] ∧
        parse tokens log = (some p, log)) ∨
      ∃ d : Diagnostic, parse tokens log = (none, { log with errors := log.errors ++ [d] }) ∧
        d.severity = .error ∧ d.phase = .parsing ∧ d.notes = [] ∧
        ∃ t ∈ tokens, t.location = d.location) ∧
    (∀ (c : PlainStatement) (s : State) (ts : List Token),
      ((∃ l s', expression .standard (s.moved (c.words ++ ts))
          = .error (.finding (.error .invalidAssignmentTarget l)) s') ↔ ∃ i, c.Misplaced i) ∧
      (∀ operator, c.FirstMisplaced operator →
        ∃ s', expression .standard (s.moved (c.words ++ ts))
          = .error (.finding (.error .invalidAssignmentTarget operator.location)) s') ∧
      (c.Placed → ∃ t s', expression .standard (s.moved (c.words ++ ts)) = .ok t s' ∧
        s'.rest = c.ending :: ts)) ∧
    ∀ tokens earlier c after, BeginsFunction tokens (earlier ++ [c]) after →
      (∀ c ∈ earlier, c.Placed ∧ c.ending.kind = .semicolon) → ∀ log,
      (∀ operator, c.FirstMisplaced operator →
        parse tokens log = (none, log.recordError .invalidAssignmentTarget operator.location)) ∧
      (c.Placed → c.Closes after → ∃ q, parse tokens log = (some q, log)) := by
  refine ⟨fun tokens log => ?_, PlainStatement.expression_settles,
    fun tokens earlier c after h hearlier log => ⟨fun operator hc =>
      parse_of_firstMisplaced h hearlier hc log, fun hc hafter =>
      exists_parse_of_placed h hearlier hc hafter log⟩⟩
  refine (parse_all_or_none tokens log).imp_right ?_
  rintro ⟨d, hparse, hd, hlocation⟩
  exact ⟨d, hparse, hd.severity, hd.phase, hd.notes, hlocation⟩

/-- The statement `x = 1;`. -/
def assignedOne : PlainStatement where
  first := ⟨.ident, "x", ⟨1, 0⟩⟩
  links := [(⟨.equal, "=", ⟨1, 2⟩⟩, ⟨.integer, "1", ⟨1, 4⟩⟩)]
  ending := ⟨.semicolon, ";", ⟨1, 5⟩⟩
  first_isAtom := by decide
  links_plain := by decide
  ending_ends := .inl rfl

/-- The statement `x = 2 + y := 3`, up to the brace after it. -/
def assignedSum : PlainStatement where
  first := ⟨.ident, "x", ⟨2, 0⟩⟩
  links := [(⟨.equal, "=", ⟨2, 2⟩⟩, ⟨.integer, "2", ⟨2, 4⟩⟩),
    (⟨.plus, "+", ⟨2, 6⟩⟩, ⟨.ident, "y", ⟨2, 8⟩⟩),
    (⟨.colonEqual, ":=", ⟨2, 10⟩⟩, ⟨.integer, "3", ⟨2, 13⟩⟩)]
  ending := ⟨.rightBrace, "\x7d", ⟨3, 0⟩⟩
  first_isAtom := by decide
  links_plain := by decide
  ending_ends := .inr rfl

/-- The tokens of a function with these statements. -/
def sumFunction : List Token :=
  [⟨.funcWord, "func", ⟨0, 0⟩⟩, ⟨.ident, "f", ⟨0, 5⟩⟩, ⟨.leftParen, "(", ⟨0, 6⟩⟩,
    ⟨.rightParen, ")", ⟨0, 7⟩⟩, ⟨.leftBrace, "\x7b", ⟨0, 9⟩⟩] ++
  (assignedOne.words ++ assignedSum.words)

/-- The second assignment of the second statement is refused, its first one not. -/
theorem parsing_refuses_sum :
    BeginsFunction sumFunction [assignedOne, assignedSum] [] ∧
    assignedSum.FirstMisplaced ⟨.colonEqual, ":=", ⟨2, 10⟩⟩ ∧
    parse sumFunction .empty
      = (none, Log.empty.recordError .invalidAssignmentTarget ⟨2, 10⟩) := by
  have hbegins : BeginsFunction sumFunction ([assignedOne] ++ [assignedSum]) [] :=
    ⟨_, _, rfl, .intro rfl rfl rfl .empty rfl .absent⟩
  have hplaced : ∀ c ∈ [assignedOne], c.Placed ∧ c.ending.kind = .semicolon :=
    List.forall_mem_singleton.mpr ⟨PlainStatement.placed_iff.mpr rfl, rfl⟩
  have hfirst : assignedSum.FirstMisplaced ⟨.colonEqual, ":=", ⟨2, 10⟩⟩ :=
    PlainStatement.firstMisplaced_iff.mpr rfl
  exact ⟨hbegins, hfirst,
    (parsing_all_or_nothing.2.2 _ _ _ _ hbegins hplaced .empty).1 _ hfirst⟩

end Fern.Parsing
