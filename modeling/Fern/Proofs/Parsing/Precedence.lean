import Mathlib.Tactic
import Fern.Proofs.Parsing.Headers
import Fern.Proofs.Parsing.Operators
import Fern.Proofs.Parsing.Storage

/-!
The grouping of operands and operators by the strength of the operators, for any tables.

* `Grouping`: operands joined by operators, with its words in order (`words`). `chain` are the words
  of a first operand and of links, an operator and an operand each.
* `Grouping.Respects`: on the left of an operator no weaker one is outermost, on its right only a
  stronger one. `Grouping.Respects.eq_of_words_eq`: the words determine such a grouping.
* `Depicts`: a tree has the form of a grouping.
* `climbWithin_groups`: a run over the operators, whose invariant is `Grouped`.
* `expression_groups`: a chain is read as a whole and grouped in the one way that respects the
  strength of its operators.
-/

namespace Fern.Parsing

/-! ### Groupings -/

/-- Operands joined by operators. -/
inductive Grouping where
  | operand (token : Token)
  | joined (left : Grouping) (operator : Token) (right : Grouping)
deriving Repr, DecidableEq

/-- The words of links: an operator and an operand each. -/
def linkWords (links : List (Token × Token)) : List Token :=
  links.flatMap fun link => [link.1, link.2]

/-- The words of an operand and of links after it. -/
def chain (first : Token) (links : List (Token × Token)) : List Token := first :: linkWords links

namespace Grouping

/-- The operands and the operators, in order. -/
def words : Grouping → List Token
  | operand token => [token]
  | joined left operator right => left.words ++ operator :: right.words

/-- The first operand. -/
def first : Grouping → Token
  | operand token => token
  | joined left _ _ => left.first

/-- Each operator with the operand right after it, in order. -/
def links : Grouping → List (Token × Token)
  | operand _ => []
  | joined left operator right => left.links ++ (operator, right.first) :: right.links

/-- The outermost operator. -/
def root? : Grouping → Option Token
  | operand _ => none
  | joined _ operator _ => some operator

/-- The outermost operator on the left of an operator is at least as strong as this one, and on its
right it is stronger. -/
def Respects (T : Tables) : Grouping → Prop
  | operand _ => True
  | joined left operator right =>
    (left.Respects T ∧ ∀ o ∈ left.root?, T.level operator.kind ≤ T.level o.kind) ∧
      right.Respects T ∧ ∀ o ∈ right.root?, T.level operator.kind < T.level o.kind

/-- Whether a grouping respects the strength of its operators can be computed. -/
instance decidableRespects (T : Tables) : (g : Grouping) → Decidable (g.Respects T)
  | operand _ => .isTrue trivial
  | joined left operator right =>
    have := decidableRespects T left
    have := decidableRespects T right
    inferInstanceAs (Decidable ((left.Respects T ∧
      ∀ o ∈ left.root?, T.level operator.kind ≤ T.level o.kind) ∧ right.Respects T ∧
      ∀ o ∈ right.root?, T.level operator.kind < T.level o.kind))

/-- A grouping is read as a chain. -/
lemma words_eq_chain (g : Grouping) : g.words = chain g.first g.links := by
  induction g with
  | operand token => rfl
  | joined left operator right ihleft ihright =>
      simp only [words, ihleft, ihright, first, links, chain, linkWords, List.flatMap_append,
        List.flatMap_cons, List.cons_append, List.nil_append]

end Grouping

lemma length_linkWords (links : List (Token × Token)) :
    (linkWords links).length = 2 * links.length := by
  induction links with
  | nil => rfl
  | cons link links ih =>
      have hlink : linkWords (link :: links) = link.1 :: link.2 :: linkWords links := rfl
      rw [hlink, List.length_cons, List.length_cons, List.length_cons, ih]
      omega

/-- The words of links determine the links. -/
lemma linkWords_injective : Function.Injective linkWords := by
  intro ls
  induction ls with
  | nil =>
      rintro (_ | ⟨l, ls'⟩) h
      · rfl
      · cases h
  | cons l ls ih =>
      rintro (_ | ⟨l', ls'⟩) h
      · cases h
      · obtain ⟨hoperator, h⟩ := List.cons.inj h
        obtain ⟨hoperand, h⟩ := List.cons.inj h
        rw [Prod.ext hoperator hoperand, ih h]

namespace Grouping

variable {T : Tables} {g g' : Grouping}

/-- In a grouping by strength, what bounds the outermost operator from below bounds every operator.
-/
lemma Respects.le_of_mem {least : ℤ} {link : Token × Token} (h : g.Respects T)
    (hroot : ∀ o ∈ g.root?, least ≤ T.level o.kind) (hlink : link ∈ g.links) :
    least ≤ T.level link.1.kind := by
  induction g with
  | operand token => cases hlink
  | joined left operator right ihleft ihright =>
      obtain ⟨⟨hleft, hweaker⟩, hright, hstronger⟩ := h
      have hoperator : least ≤ T.level operator.kind := hroot operator rfl
      rcases List.mem_append.mp hlink with hlink | hlink
      · exact ihleft hleft (fun o ho => hoperator.trans (hweaker o ho)) hlink
      · rcases List.mem_cons.mp hlink with rfl | hlink
        · exact hoperator
        · exact ihright hright (fun o ho => hoperator.trans (hstronger o ho).le) hlink

/-- Two groupings by strength of the same links divide them at the same operator: the outermost
operator of the second cannot stand on the right of that of the first, being no stronger than this
one, which would stand on its left. -/
lemma Respects.nil_of_divides {left right left' right' : Grouping} {operator operator' : Token}
    {between : List (Token × Token)} (h : (joined left operator right).Respects T)
    (h' : (joined left' operator' right').Respects T) (hleft : left'.links = left.links ++ between)
    (hright : (operator, right.first) :: right.links
      = between ++ (operator', right'.first) :: right'.links) :
    between = [] := by
  cases between with
  | nil => rfl
  | cons link between =>
      obtain ⟨rfl, hlater⟩ := List.cons.inj hright
      have hbelow : T.level operator'.kind ≤ T.level operator.kind :=
        h'.1.1.le_of_mem h'.1.2 (hleft ▸ List.mem_append_right _ (List.mem_cons_self ..))
      have hmem : (operator', right'.first) ∈ right.links := by
        rw [hlater]
        exact List.mem_append_right _ (List.mem_cons_self ..)
      have habove : T.level operator.kind + 1 ≤ T.level operator'.kind :=
        h.2.1.le_of_mem (fun o ho => h.2.2 o ho) hmem
      omega

/-- The first operand and the links determine a grouping by strength. -/
lemma Respects.eq_of_links_eq (h : g.Respects T) (h' : g'.Respects T) (hfirst : g.first = g'.first)
    (hlinks : g.links = g'.links) : g = g' := by
  induction g generalizing g' with
  | operand token =>
      cases g' with
      | operand token' => exact congrArg operand hfirst
      | joined left' operator' right' => simp [links] at hlinks
  | joined left operator right ihleft ihright =>
      cases g' with
      | operand token' => simp [links] at hlinks
      | joined left' operator' right' =>
          have hdivide : left.links = left'.links ∧ (operator, right.first) :: right.links
              = (operator', right'.first) :: right'.links := by
            rcases List.append_eq_append_iff.mp hlinks with ⟨between, hl, hr⟩ | ⟨between, hl, hr⟩
            · obtain rfl := h.nil_of_divides h' hl hr
              exact ⟨by simpa using hl.symm, by simpa using hr⟩
            · obtain rfl := h'.nil_of_divides h hl hr
              exact ⟨by simpa using hl, by simpa using hr.symm⟩
          obtain ⟨hleft, hcut⟩ := hdivide
          obtain ⟨hoperator, hright⟩ := List.cons.inj hcut
          obtain ⟨rfl, hrightFirst⟩ := Prod.mk.inj hoperator
          rw [ihleft h.1.1 h'.1.1 hfirst hleft, ihright h.2.1 h'.2.1 hrightFirst hright]

/-- **Uniqueness.** The words determine a grouping that respects the strength of the operators. -/
theorem Respects.eq_of_words_eq (h : g.Respects T) (h' : g'.Respects T)
    (hwords : g.words = g'.words) : g = g' := by
  rw [words_eq_chain, words_eq_chain] at hwords
  obtain ⟨hfirst, hlinks⟩ := List.cons.inj hwords
  exact h.eq_of_links_eq h' hfirst (linkWords_injective hlinks)

end Grouping

/-! ### Literals as operands -/

variable {T : Tables}

/-- The literal that a token is as an operand, its kind having the rule of such literals. -/
inductive IsLiteral (T : Tables) (token : Token) : Shape Tree → Prop
  | number (rule : T.primary token.kind = some .number) :
      IsLiteral T token (.number (textOrKind token) (token.kind = .float))
  | string (rule : T.primary token.kind = some .string) (kind : token.kind = .string) :
      IsLiteral T token (.string token.lexeme)
  | char (rule : T.primary token.kind = some .char) (kind : token.kind = .char) :
      IsLiteral T token (.char token.lexeme)
  | boolean (rule : T.primary token.kind = some .boolean) :
      IsLiteral T token (.boolean (token.kind = .trueWord))

/-- A literal has no parts. -/
lemma IsLiteral.children {token : Token} {shape : Shape Tree} (h : IsLiteral T token shape) :
    shape.children = [] := by
  cases h <;> rfl

/-- A literal is read in one step and stored at its place. -/
lemma IsLiteral.operandWithin_eq {token : Token} {shape : Shape Tree} (h : IsLiteral T token shape)
    {s : State} {ts : List Token} (hs : s.rest = token :: ts) (n : ℕ) :
    operandWithin T (n + 2) s
      = .ok ((s.moved ts).built shape token.location)
          ((s.moved ts).added shape token.location) := by
  have hkind := State.kind_of_rest hs
  refine operandWithin_eq_ok.mpr ?_
  cases h with
  | number rule =>
      refine ⟨.number, hkind ▸ rule, (number_eq_ok hs).mpr ?_⟩
      rw [State.lexeme_of_rest hs]
      rfl
  | string rule kind => exact ⟨.string, hkind ▸ rule, string_eq_ok.mpr ⟨token, ts, hs, kind, rfl⟩⟩
  | char rule kind => exact ⟨.char, hkind ▸ rule, char_eq_ok.mpr ⟨token, ts, hs, kind, rfl⟩⟩
  | boolean rule => exact ⟨.boolean, hkind ▸ rule, (boolean_eq_ok hs).mpr rfl⟩

/-- The tree has the form of the grouping: literals at the places of the operands, and binary
expressions at those of the operators. -/
inductive Depicts (T : Tables) : Tree → Grouping → Prop
  | operand {id token shape} (literal : IsLiteral T token shape) :
      Depicts T (.node id token.location shape) (.operand token)
  | joined {id left right operator gleft gright} (onLeft : Depicts T left gleft)
      (onRight : Depicts T right gright) :
      Depicts T (.node id operator.location (.binary operator.kind left right))
        (.joined gleft operator gright)

/-! ### Runs over operators -/

/-- A kind of token that joins any operands, with more than the default power. -/
def Tables.Joins (T : Tables) (k : Token.Kind) : Prop :=
  ∃ power, T.operator k = some (power, .binary) ∧ power ≠ .default

/-- A link: an operator that joins any operands, and a literal. -/
def Tables.IsLink (T : Tables) (link : Token × Token) : Prop :=
  T.Joins link.1.kind ∧ ∃ shape, IsLiteral T link.2 shape

/-- What is no operator has the default power, the end of the input included. -/
def Tables.Ends (T : Tables) (ts : List Token) : Prop := ∀ t ∈ ts.head?, T.power t.kind = .default

/-- A default power is below every other. -/
lemma Power.level_pos {power : Power} (h : power ≠ .default) : 0 < power.level := by
  cases power with
  | default => exact absurd rfl h
  | _ => decide

/-- Where a chain ends, the next token ranks below all operators. -/
lemma level_neg_of_ends (hend : T.operator .endOfInput = none) {ts : List Token} (hts : T.Ends ts)
    {s : State} (hs : s.rest = ts) : T.level s.kind < 0 := by
  subst hs
  unfold State.kind
  cases hrest : s.rest with
  | nil => exact T.level_neg_of_operator hend
  | cons t ts =>
      rw [Tables.level, hts t (by simp [hrest])]
      decide

/-- What has been read up to the state `s` is a stored tree with the form of a grouping by strength.
Its outermost operator is not below `least`, and the next token is not stronger than it. -/
structure Grouped (T : Tables) (least : ℤ) (t : Tree) (g : Grouping) (s : State) : Prop where
  stored : s.arena.Stores t
  depicts : Depicts T t g
  respects : g.Respects T
  strong : ∀ o ∈ g.root?, least ≤ T.level o.kind
  complete : ∀ o ∈ g.root?, T.level s.kind ≤ T.level o.kind

/-- The result of a run from the state `s`, before the links `links`, that groups the words `ws` and
those of the links up to an operator below `least`. -/
def Groups (T : Tables) (follow : List Token) (least : ℤ) (s : State) (links : List (Token × Token))
    (ws : List Token) (r : EStateM.Result Failure State Tree) : Prop :=
  ∃ t s' g links', r = .ok t s' ∧ Grouped T least t g s' ∧ s.arena.Extends s'.arena ∧
    T.level s'.kind < least ∧ s'.rest = linkWords links' ++ follow ∧ links' <:+ links ∧
    g.words ++ linkWords links' = ws ++ linkWords links

/-- A literal is read as a grouping, whatever comes next. -/
lemma IsLiteral.exists_grouped {token : Token} {shape : Shape Tree} (h : IsLiteral T token shape)
    {s : State} {ts : List Token} (hs : s.rest = token :: ts) (n : ℕ) :
    ∃ t s', operandWithin T (n + 2) s = .ok t s' ∧ s'.rest = ts ∧ s.arena.Extends s'.arena ∧
      ∀ least, Grouped T least t (.operand token) s' := by
  refine ⟨_, _, h.operandWithin_eq hs n, rfl, Arena.extends_add _ _ _, fun least => ?_⟩
  exact {
    stored := Arena.stores_add _ (by simp [h.children])
    depicts := .operand h
    respects := trivial
    strong := by simp [Grouping.root?]
    complete := by simp [Grouping.root?] }

/-- Two groupings joined by an operator between them are one: the left one has no weaker operator
outermost, as no stronger token came after it, and the right one only a stronger operator. -/
lemma Grouped.joined {least least' : ℤ} {left right : Tree} {gleft gright : Grouping} {s s' : State}
    {operator : Token} (hleft : Grouped T least left gleft s) (hs : s.kind = operator.kind)
    (hright : Grouped T (T.level operator.kind + 1) right gright s')
    (hextends : s.arena.Extends s'.arena) (hnext : T.level s'.kind < T.level operator.kind + 1)
    (hleast : least' ≤ T.level operator.kind) :
    Grouped T least' (s'.built (.binary operator.kind left right) operator.location)
      (.joined gleft operator gright)
      (s'.added (.binary operator.kind left right) operator.location) where
  stored := by
    refine Arena.stores_add _ fun t ht => ?_
    rcases List.mem_pair.mp ht with rfl | rfl
    · exact hleft.stored.mono hextends
    · exact hright.stored
  depicts := .joined hleft.depicts hright.depicts
  respects := ⟨⟨hleft.respects, hs ▸ hleft.complete⟩, hright.respects, hright.strong⟩
  strong := by
    rintro o ⟨⟩
    exact hleast
  complete := by
    rintro o ⟨⟩
    exact Int.lt_add_one_iff.mp hnext

section Climb

variable {follow : List Token}

/-- **A run over the operators.** The operators from a level upwards are read together with their
operands, and group what was read before and the operands. The induction is on the steps allowed,
each operator taking one; the same statement serves the operand on the right of an operator and the
operators after it. -/
theorem climbWithin_groups (hend : T.operator .endOfInput = none) (hfollow : T.Ends follow) {n : ℕ}
    {least : ℤ} {links : List (Token × Token)} {left : Tree} {gleft : Grouping} {s : State}
    (hn : links.length + 2 ≤ n) (hleast : 0 ≤ least) (hlinks : ∀ link ∈ links, T.IsLink link)
    (hs : s.rest = linkWords links ++ follow) (hleft : Grouped T least left gleft s) :
    Groups T follow least s links gleft.words (climbWithin T n least left s) := by
  induction n generalizing least links left gleft s with
  | zero => omega
  | succ n ih =>
      by_cases hweak : T.level s.kind < least
      · exact ⟨left, s, gleft, links, climbWithin_stop hweak, hleft, .refl _, hweak, hs,
          List.suffix_rfl, rfl⟩
      cases links with
      | nil => exact absurd ((level_neg_of_ends hend hfollow hs).trans_le hleast) hweak
      | cons link links =>
          obtain ⟨operator, operand⟩ := link
          obtain ⟨⟨⟨power, hrule, -⟩, shape, hliteral⟩, hlinks⟩ := List.forall_mem_cons.mp hlinks
          have hkind : s.kind = operator.kind := State.kind_of_rest hs
          have hlevel : T.level operator.kind = power.level := T.level_of_operator hrule
          rw [List.length_cons] at hn
          -- the operand after the operator, and what stronger operators join to it
          obtain ⟨m, rfl⟩ : ∃ m, n = m + 2 := ⟨n - 2, by omega⟩
          obtain ⟨first, s₁, hoperand, hrest₁, hextends₁, hfirst⟩ := hliteral.exists_grouped
            (s := s.moved (operand :: (linkWords links ++ follow))) rfl m
          have hright : Groups T follow (power.level + 1) s₁ links [operand]
              ((if power.level < T.level s₁.kind then climbWithin T (m + 2) (power.level + 1) first
                else pure first) s₁) := by
            split
            · exact ih (by omega) (by rw [hkind] at hweak; omega) hlinks hrest₁ (hfirst _)
            · exact ⟨first, s₁, .operand operand, links, rfl, hfirst _, .refl _, by omega, hrest₁,
                List.suffix_rfl, rfl⟩
          obtain ⟨right, s₂, gright, links₂, hright, hgright, hextends₂, hnext, hrest₂, hsuffix,
            hwords⟩ := hright
          rw [← hlevel] at hgright hnext
          -- the joined operand and the operators after it
          have hjoined := hleft.joined hkind hgright (hextends₁.trans hextends₂) hnext
            (hkind ▸ not_lt.mp hweak)
          obtain ⟨t, s', g, links', hrun, hg, hextends, hstop, hrest, hsuffix', hwords'⟩ :=
            ih (s := s₂.added _ _) (by have := hsuffix.length_le; omega) hleast
              (fun link hlink => hlinks link (hsuffix.subset hlink)) hrest₂ hjoined
          refine ⟨t, s', g, links', (climbWithin_operator_eq_ok hs hrule ?_).mpr
            ⟨first, s₁, right, s₂, _, _, hoperand, hright, join_binary, hrun⟩, hg, ?_, hstop, hrest,
            (hsuffix'.trans hsuffix).trans (List.suffix_cons _ _), ?_⟩
          · rw [← hlevel, ← hkind]
            exact not_lt.mp hweak
          · exact ((hextends₁.trans hextends₂).trans (Arena.extends_add _ _ _)).trans hextends
          · calc g.words ++ linkWords links'
                = gleft.words ++ operator :: (gright.words ++ linkWords links₂) := by
                  rw [hwords', Grouping.words, List.append_assoc, List.cons_append]
              _ = gleft.words ++ linkWords ((operator, operand) :: links) := by
                  rw [hwords]
                  rfl

/-- **Operators by strength.** Where every operator in a chain of literals joins any operands, the
chain is read as a whole. It has exactly one grouping that respects the strength of the operators,
and the stored expression has the form of that grouping. -/
theorem expression_groups (hend : T.operator .endOfInput = none) {s : State} {first : Token}
    {links : List (Token × Token)} (hs : s.rest = chain first links ++ follow)
    (hfirst : ∃ shape, IsLiteral T first shape) (hlinks : ∀ link ∈ links, T.IsLink link)
    (hfollow : T.Ends follow) :
    ∃ t s' g, expression T s = .ok t s' ∧ s'.rest = follow ∧ s.arena.Extends s'.arena ∧
      s'.arena.tree t.id = t ∧ Depicts T t g ∧ (g.words = chain first links ∧ g.Respects T) ∧
      ∀ g' : Grouping, g'.words = chain first links ∧ g'.Respects T → g' = g := by
  obtain ⟨shape, hliteral⟩ := hfirst
  obtain ⟨m, hm, hlength⟩ : ∃ m, 8 * (s.rest.length + 1) = m + 3 ∧ links.length ≤ m := by
    have hlength := length_linkWords links
    refine ⟨8 * (s.rest.length + 1) - 3, by omega, ?_⟩
    rw [hs, chain, List.length_append, List.length_cons]
    omega
  obtain ⟨left, s₁, hoperand, hrest₁, hextends₁, hleft⟩ := hliteral.exists_grouped hs m
  obtain ⟨t, s', g, links', hrun, hg, hextends, hstop, hrest, hsuffix, hwords⟩ :=
    climbWithin_groups hend hfollow (show links.length + 2 ≤ m + 2 by omega) le_rfl hlinks hrest₁
      (hleft 0)
  obtain rfl : links' = [] := by
    cases links' with
    | nil => rfl
    | cons link links' =>
        obtain ⟨⟨power, hrule, hpower⟩, -⟩ := hlinks link (hsuffix.subset (List.mem_cons_self ..))
        rw [State.kind_of_rest hrest, T.level_of_operator hrule] at hstop
        exact absurd hstop (Power.level_pos hpower).le.not_gt
  have hchain : g.words = chain first links := by
    simpa [linkWords, chain, Grouping.words] using hwords
  refine ⟨t, s', g, ?_, hrest, hextends₁.trans hextends, hg.stored.tree_eq, hg.depicts,
    ⟨hchain, hg.respects⟩, ?_⟩
  · change expressionWithin T (8 * (s.rest.length + 1)) s = .ok t s'
    rw [hm]
    exact expressionWithin_eq_ok.mpr ⟨_, _, hoperand, hrun⟩
  · rintro g' ⟨hwords', hrespects⟩
    exact hrespects.eq_of_words_eq hg.respects (hwords'.trans hchain.symm)

end Climb

/-- Tables in which a comma and a full stop are operators, the full stop the stronger one, and a
colon has the default power. -/
def pairTables : Tables :=
  ((((Tables.empty.withPrimary .integer .number).withPrimary .char .char).withOperator .comma
    .assignment .binary).withOperator .dot .multiplicative .binary).withOperator .colon .default
    .binary

/-- The links of `1, 'a'.2, 3`. -/
def pairLinks : List (Token × Token) :=
  [(⟨.comma, ",", ⟨0, 1⟩⟩, ⟨.char, "a", ⟨0, 3⟩⟩), (⟨.dot, ".", ⟨0, 6⟩⟩, ⟨.integer, "2", ⟨0, 7⟩⟩),
    (⟨.comma, ",", ⟨0, 8⟩⟩, ⟨.integer, "3", ⟨0, 10⟩⟩)]

/-- The grouping of `1, 'a'.2, 3` as `(1, ('a'.2)), 3`. -/
def pairGrouping : Grouping :=
  .joined (.joined (.operand ⟨.integer, "1", ⟨0, 0⟩⟩) ⟨.comma, ",", ⟨0, 1⟩⟩
    (.joined (.operand ⟨.char, "a", ⟨0, 3⟩⟩) ⟨.dot, ".", ⟨0, 6⟩⟩
      (.operand ⟨.integer, "2", ⟨0, 7⟩⟩))) ⟨.comma, ",", ⟨0, 8⟩⟩ (.operand ⟨.integer, "3", ⟨0, 10⟩⟩)

lemma isLink_of_mem_pairLinks : ∀ link ∈ pairLinks, pairTables.IsLink link := by
  simp only [pairLinks, List.forall_mem_cons, List.not_mem_nil, false_implies, implies_true,
    and_true]
  exact ⟨⟨⟨.assignment, rfl, by decide⟩, _, .char rfl rfl⟩,
    ⟨⟨.multiplicative, rfl, by decide⟩, _, .number rfl⟩,
    ⟨⟨.assignment, rfl, by decide⟩, _, .number rfl⟩⟩

/-- Weaker operators on both sides of a stronger one are grouped to the left, up to the colon. -/
theorem pairs_group :
    ∃ t s', expression pairTables
        ⟨chain ⟨.integer, "1", ⟨0, 0⟩⟩ pairLinks ++ [⟨.colon, ":", ⟨0, 11⟩⟩], ⟨0, 11⟩, .empty⟩
        = .ok t s' ∧
      s'.rest = [⟨.colon, ":", ⟨0, 11⟩⟩] ∧ Depicts pairTables t pairGrouping := by
  obtain ⟨t, s', g, hrun, hrest, -, -, hdepicts, -, hunique⟩ :=
    expression_groups (T := pairTables) rfl
      (s := ⟨chain ⟨.integer, "1", ⟨0, 0⟩⟩ pairLinks ++ [⟨.colon, ":", ⟨0, 11⟩⟩], ⟨0, 11⟩, .empty⟩)
      rfl ⟨_, .number rfl⟩ isLink_of_mem_pairLinks (by rintro t ⟨⟩; rfl)
  have hg : pairGrouping = g := hunique pairGrouping ⟨rfl, by decide⟩
  exact ⟨t, s', hrun, hrest, hg ▸ hdepicts⟩

end Fern.Parsing
