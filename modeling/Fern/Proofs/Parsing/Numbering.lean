import Mathlib.Tactic
import Fern.Proofs.Parsing.Language
import Fern.Proofs.Program.Filling

/-!
How the parser numbers what it stores.

* `definitionSigns`: how many signs `:=` there are in some tokens.
* `Occupies`: a run fills the numbers that it gives out with the expressions it returns and one name
  for every sign `:=` that it reads.
* `NumbersAt`: this for all parts of the parser of expressions, with a given number of steps;
  `numbersAt` is the induction on this number. Of the operators after an operand nothing is needed
  but what has been stored since the operand began.
* `fillsInTurn_of_parse`: the bodies of a program fill its store one after the other.
-/

namespace Fern

open Arena

namespace Parsing

/-- The number of the signs `:=`. -/
def definitionSigns (ts : List Token) : ℕ := ts.countP (·.kind = .colonEqual)

variable {n : ℕ} {s s₀ s₁ s' : State} {t : Tree} {es fs : List Tree} {token : Token}
  {ts ts' : List Token}

lemma definitionSigns_cons (h : token.kind ≠ .colonEqual) :
    definitionSigns (token :: ts) = definitionSigns ts := by
  simp [definitionSigns, h]

lemma definitionSigns_cons_of_kind {k : Token.Kind} (h : token.kind = k) (hk : k ≠ .colonEqual) :
    definitionSigns (token :: ts) = definitionSigns ts :=
  definitionSigns_cons (h ▸ hk)

/-! ### Types and heads -/

/-- There is no sign `:=` in a type. -/
lemma IsType.definitionSigns_eq {ty : Ty} (h : IsType ts ty ts') :
    definitionSigns ts = definitionSigns ts' := by
  induction h with
  | named hname _ => exact definitionSigns_cons_of_kind hname (by decide)
  | reference hmark _ ih => exact (definitionSigns_cons_of_kind hmark (by decide)).trans ih

lemma AreParameters.definitionSigns_eq {ps : List Parameter} (h : AreParameters ts ps ts') :
    definitionSigns ts = definitionSigns ts' := by
  induction h with
  | last hname hcolon htype =>
      rw [definitionSigns_cons_of_kind hname (by decide),
        definitionSigns_cons_of_kind hcolon (by decide), htype.definitionSigns_eq]
  | more hname hcolon htype hcomma _ ih =>
      rw [definitionSigns_cons_of_kind hname (by decide),
        definitionSigns_cons_of_kind hcolon (by decide), htype.definitionSigns_eq,
        definitionSigns_cons_of_kind hcomma (by decide), ih]

/-- There is no sign `:=` in the head of a function. -/
lemma IsPrototype.definitionSigns_eq {p : Prototype} (h : IsPrototype ts p ts') :
    definitionSigns ts = definitionSigns ts' := by
  cases h with
  | @intro _ _ _ us _ closing ts₁ _ _ hword hname hopening hparameters hclosing hreturn =>
      have hlist : definitionSigns us = definitionSigns (closing :: ts₁) := by
        cases hparameters with
        | empty => rfl
        | some h => exact h.definitionSigns_eq
      have hafter : definitionSigns ts₁ = definitionSigns ts' := by
        cases hreturn with
        | absent => rfl
        | stated harrow htype =>
            rw [definitionSigns_cons_of_kind harrow (by decide), htype.definitionSigns_eq]
      rw [definitionSigns_cons_of_kind hword (by decide),
        definitionSigns_cons_of_kind hname (by decide),
        definitionSigns_cons_of_kind hopening (by decide), hlist,
        definitionSigns_cons_of_kind hclosing (by decide), hafter]

/-! ### Runs -/

/-- A run from `s` to `s'` leaves the stored expressions in place, and the numbers it gives out are
those of the parts of `es` and of one name for each sign `:=` that it reads. -/
structure Occupies (s : State) (es : List Tree) (s' : State) : Prop where
  extends_arena : s.arena.Extends s'.arena
  fills : ∃ k, s'.arena.Fills s.arena.size es s'.arena.size k ∧
    definitionSigns s.rest = k + definitionSigns s'.rest

namespace Occupies

lemma none (s : State) : Occupies s [] s := ⟨.refl _, 0, .nil, (Nat.zero_add _).symm⟩

/-- One run after the other stores what both store. -/
lemma append (h : Occupies s es s₁) (h' : Occupies s₁ fs s') : Occupies s (es ++ fs) s' := by
  obtain ⟨k, hfills, hsigns⟩ := h.fills
  obtain ⟨m, hfills', hsigns'⟩ := h'.fills
  refine ⟨h.extends_arena.trans h'.extends_arena, k + m,
    (hfills.mono h'.extends_arena).append hfills', ?_⟩
  rw [hsigns, hsigns', Nat.add_assoc]

/-- Tokens without a sign `:=` may be read before a run. -/
lemma of_moved (h : Occupies (s.moved ts) es s')
    (hsigns : definitionSigns s.rest = definitionSigns ts) : Occupies s es s' := by
  obtain ⟨k, hfills, hk⟩ := h.fills
  exact ⟨h.extends_arena, k, hfills, hsigns.trans hk⟩

lemma of_read (h : Occupies (s.moved ts) es s') (hs : s.rest = token :: ts)
    (hne : token.kind ≠ .colonEqual) : Occupies s es s' :=
  h.of_moved (by rw [hs, definitionSigns_cons hne])

/-- Tokens without a sign `:=` may be read after a run. -/
lemma moved (h : Occupies s es s') (hsigns : definitionSigns s'.rest = definitionSigns ts) :
    Occupies s es (s'.moved ts) := by
  obtain ⟨k, hfills, hk⟩ := h.fills
  exact ⟨h.extends_arena, k, hfills, hk.trans (congrArg (k + ·) hsigns)⟩

lemma read (h : Occupies s es s') (hs : s'.rest = token :: ts) (hne : token.kind ≠ .colonEqual) :
    Occupies s es (s'.moved ts) :=
  h.moved (by rw [hs, definitionSigns_cons hne])

/-- An expression is stored on top of its subexpressions. -/
lemma add {shape : Shape Tree} {l : Location} (h : Occupies s shape.children s₁)
    (hadd : add shape l s₁ = .ok t s') : Occupies s [t] s' := by
  obtain ⟨rfl, rfl⟩ := add_eq_ok.mp hadd
  obtain ⟨k, hfills, hk⟩ := h.fills
  have hextends : s₁.arena.Extends (s₁.added shape l).arena := extends_add _ _ _
  have hfound : (s₁.added shape l).arena.get? s₁.arena.size = some ⟨shape.map Tree.id, l⟩ := by
    rw [State.added, get?_add, if_pos rfl]
  refine ⟨h.extends_arena.trans hextends, k, ?_, hk⟩
  rw [State.added, size_add]
  exact (hfills.mono hextends).node hfound

/-- An expression without subexpressions is stored after a token. -/
lemma leaf {shape : Shape Tree} {l : Location} (hs : s.rest = token :: ts)
    (hne : token.kind ≠ .colonEqual) (hleaf : shape.children = [])
    (hadd : Parsing.add shape l (s.moved ts) = .ok t s') : Occupies s [t] s' := by
  refine Occupies.add ?_ hadd
  rw [hleaf]
  exact (Occupies.none s).read hs hne

/-- A sign `:=` is read after the name in front of it, and the name belongs to nothing then. -/
lemma loosen {id : NodeId} {l : Location} {name : String}
    (h : Occupies s [.node id l (.var name)] s₁) (hs : s₁.rest = token :: ts)
    (hsign : token.kind = .colonEqual) : Occupies s [] (s₁.moved ts) := by
  obtain ⟨k, hfills, hk⟩ := h.fills
  refine ⟨h.extends_arena, k + 1, hfills.loosen, ?_⟩
  rw [hk, hs, State.rest_moved]
  simp only [definitionSigns, List.countP_cons, hsign, decide_true, if_true]
  omega

/-- All that is returned has been stored. -/
lemma stores (h : Occupies s es s') : ∀ e ∈ es, s'.arena.Stores e := by
  obtain ⟨k, hfills, -⟩ := h.fills
  exact hfills.stores

end Occupies

/-! ### The parts of the parser -/

/-- With `n` steps, the parts of the parser fill the numbers they give out with what they return. In
`climb` the expression `left` has been stored since the state `s₀`. -/
structure NumbersAt (n : ℕ) : Prop where
  expression : ∀ {s t s'}, expressionWithin .standard n s = .ok t s' → Occupies s [t] s'
  climb : ∀ {least left s₀ s t s'}, Occupies s₀ [left] s →
    climbWithin .standard n least left s = .ok t s' → Occupies s₀ [t] s'
  operand : ∀ {s t s'}, operandWithin .standard n s = .ok t s' → Occupies s [t] s'
  primary : ∀ {rule s t s'}, Tables.standard.primary s.kind = some rule →
    primaryWithin .standard n rule s = .ok t s' → Occupies s [t] s'
  arguments : ∀ {s es s'}, argumentsWithin .standard n s = .ok es s' → Occupies s es s'
  block : ∀ {s t s'}, blockWithin .standard n s = .ok t s' → Occupies s [t] s'
  statements : ∀ {s es s'}, statementsWithin .standard n s = .ok es s' → Occupies s es s'

/-- An operator other than `:=` keeps its left operand, and `:=` keeps only the name of it. -/
lemma occupies_join {rule : OperatorRule} {power : Power} {left right joined : Tree}
    {s₂ s₃ : State} (hrule : Tables.standard.operator token.kind = some (power, rule))
    (hs : s.rest = token :: ts) (hleft : Occupies s₀ [left] s)
    (hright : Occupies (s.moved ts) [right] s₂)
    (hjoin : join rule left token right s₂ = .ok joined s₃) : Occupies s₀ [joined] s₃ := by
  by_cases hsign : token.kind = .colonEqual
  · obtain ⟨rfl, rfl⟩ : power = .assignment ∧ rule = .assignment := by
      rw [hsign] at hrule
      cases hrule
      exact ⟨rfl, rfl⟩
    cases hname : left.name? with
    | none => exact absurd hjoin (join_assignment_ne_ok hname)
    | some name =>
        obtain ⟨id, l, rfl⟩ := eq_var_of_name hname
        rw [join_colonEqual hname hsign] at hjoin
        exact ((hleft.loosen hs hsign).append hright).add hjoin
  · have hboth : Occupies s₀ [left, right] s₂ := hleft.append (hright.of_read hs hsign)
    rcases operator_cases hrule with ⟨rfl, -, hassign⟩ | ⟨rfl, -⟩
    · cases hname : left.name? with
      | none => exact absurd hjoin (join_assignment_ne_ok hname)
      | some name =>
          rw [join_equal hname (hassign.resolve_right hsign)] at hjoin
          exact hboth.add hjoin
    · exact hboth.add hjoin

namespace NumbersAt

lemma climb_succ (h : NumbersAt n) {least : ℤ} {left : Tree} (hleft : Occupies s₀ [left] s)
    (hrun : climbWithin .standard (n + 1) least left s = .ok t s') : Occupies s₀ [t] s' := by
  cases hrule : Tables.standard.operator s.kind with
  | none =>
      have hstop : climbWithin .standard (n + 1) least left s = .ok left s := by
        simp [climbWithin, kind_bind, hrule, pure, EStateM.pure]
      cases hstop.symm.trans hrun
      exact hleft
  | some found =>
      obtain ⟨power, rule⟩ := found
      have hend : s.kind ≠ .endOfInput := by
        intro hend
        rw [hend] at hrule
        cases hrule
      obtain ⟨operator, ts, hs, hoperator⟩ := State.exists_of_kind rfl hend
      rw [← hoperator] at hrule
      by_cases hweak : level operator.kind < least
      · rw [hoperator] at hweak
        cases (climbWithin_stop hweak).symm.trans hrun
        exact hleft
      · rw [level_of_operator hrule] at hweak
        obtain ⟨first, s₁, right, s₂, joined, s₃, hfirst, hright, hjoin, hrun⟩ :=
          (climbWithin_operator_eq_ok hs hrule (not_lt.mp hweak)).mp hrun
        have hfirst := h.operand hfirst
        have hright : Occupies (s.moved ts) [right] s₂ := by
          split_ifs at hright with hstronger
          · exact h.climb hfirst hright
          · obtain ⟨rfl, rfl⟩ := pure_eq_ok.mp hright
            exact hfirst
        exact h.climb (occupies_join hrule hs hleft hright hjoin) hrun

lemma call (h : NumbersAt n) {name opening : Token} (hs : s.rest = name :: opening :: ts)
    (hname : name.kind = .ident) (hopening : opening.kind = .leftParen)
    (hrun : primaryWithin .standard (n + 1) .identifier s = .ok t s') : Occupies s [t] s' := by
  obtain ⟨arguments, s₁, closing, ts₁, harguments, hrest, hclosing, hadd⟩ :=
    (call_eq_ok hs hname hopening).mp hrun
  have hlist : Occupies (s.moved ts) arguments s₁ := by
    rcases listUnless_eq_ok.mp harguments with ⟨-, rfl, rfl⟩ | ⟨-, hsome⟩
    · exact .none _
    · exact h.arguments hsome
  have hbefore : Occupies s arguments s₁ := hlist.of_moved (by
    rw [hs, definitionSigns_cons_of_kind hname (by decide),
      definitionSigns_cons_of_kind hopening (by decide)])
  exact (hbefore.read hrest (by simp [hclosing])).add hadd

/-- The name before an index is stored first. -/
lemma subscript (h : NumbersAt n) {name opening : Token} (hs : s.rest = name :: opening :: ts)
    (hname : name.kind = .ident) (hopening : opening.kind = .leftBracket)
    (hrun : primaryWithin .standard (n + 1) .identifier s = .ok t s') : Occupies s [t] s' := by
  obtain ⟨index, s₁, closing, ts₁, hindex, hrest, hclosing, hadd⟩ :=
    (subscript_eq_ok hs hname hopening).mp hrun
  have hnone : Occupies (s.moved ts) (Shape.var name.lexeme).children (s.moved ts) := .none _
  have hoperand : Occupies (s.moved ts) [s.built (.var name.lexeme) name.location]
      ((s.moved ts).added (.var name.lexeme) name.location) := hnone.add (add_run _ _ _)
  have hbefore := (hoperand.append (h.expression hindex)).of_moved (s := s) (by
    rw [hs, definitionSigns_cons_of_kind hname (by decide),
      definitionSigns_cons_of_kind hopening (by decide)])
  exact (hbefore.read hrest (by simp [hclosing])).add hadd

lemma identifier (h : NumbersAt n) {name : Token} (hs : s.rest = name :: ts)
    (hname : name.kind = .ident) (hrun : primaryWithin .standard (n + 1) .identifier s = .ok t s') :
    Occupies s [t] s' := by
  by_cases hparen : (s.moved ts).kind = .leftParen
  · obtain ⟨opening, us, rfl, hopening⟩ := State.exists_of_kind hparen (by decide)
    exact h.call hs hname hopening hrun
  · by_cases hbracket : (s.moved ts).kind = .leftBracket
    · obtain ⟨opening, us, rfl, hopening⟩ := State.exists_of_kind hbracket (by decide)
      exact h.subscript hs hname hopening hrun
    · exact .leaf hs (by simp [hname]) rfl ((var_eq_ok hs hname hparen hbracket).mp hrun)

lemma binding (h : NumbersAt n) {word : Token} (hs : s.rest = word :: ts)
    (hword : word.kind = .letWord) (hrun : primaryWithin .standard (n + 1) .binding s = .ok t s') :
    Occupies s [t] s' := by
  obtain ⟨name, us, stated, s₁, equal, ts₁, value, s₂, rfl, hname, hstated, hrest, hequal, hvalue,
    hadd⟩ := (binding_eq_ok hs hword).mp hrun
  have hannotation : Occupies (s.moved us) [] s₁ := by
    rcases (optionalType_eq_ok (by decide)).mp hstated with
      ⟨mark, ts₂, ty, ts₃, hmark, hcolon, htype, -, rfl⟩ | ⟨-, -, rfl⟩
    · refine (Occupies.none _).moved ?_
      rw [hmark, definitionSigns_cons_of_kind hcolon (by decide), htype.definitionSigns_eq]
    · exact .none _
  have hbefore : Occupies s [] s₁ := hannotation.of_moved (by
    rw [hs, definitionSigns_cons_of_kind hword (by decide),
      definitionSigns_cons_of_kind hname (by decide)])
  exact ((hbefore.read hrest (by simp [hequal])).append (h.expression hvalue)).add hadd

lemma cond (h : NumbersAt n) {word : Token} (hs : s.rest = word :: ts)
    (hword : word.kind = .ifWord) (hrun : primaryWithin .standard (n + 1) .cond s = .ok t s') :
    Occupies s [t] s' := by
  obtain ⟨condition, s₁, thenBlock, s₂, elseBlock, s₃, hcondition, hthen, helse, hadd⟩ :=
    (cond_eq_ok hs hword).mp hrun
  have hcondition := (h.expression hcondition).of_read hs (by simp [hword])
  have hboth := hcondition.append (h.block hthen)
  rcases optionally_eq_ok.mp helse with ⟨hkind, elseTree, hrun, rfl⟩ | ⟨-, rfl, rfl⟩
  · obtain ⟨other, us, hrest, hother⟩ := State.exists_of_kind hkind (by decide)
    rw [hrest, List.tail_cons] at hrun
    exact (hboth.append ((h.block hrun).of_read hrest (by simp [hother]))).add hadd
  · exact hboth.add hadd

lemma jump (h : NumbersAt n) {word : Token} (hs : s.rest = word :: ts)
    (hword : word.kind ∈ beginningKinds .jump)
    (hrun : primaryWithin .standard (n + 1) .jump s = .ok t s') : Occupies s [t] s' := by
  have hsign : word.kind ≠ .colonEqual := by
    rintro hsign
    simp [beginningKinds, hsign] at hword
  by_cases hvalue : word.kind = .returnWord ∧ (s.moved ts).kind ≠ .semicolon ∧
    (s.moved ts).kind ≠ .rightBrace
  · obtain ⟨value, s₁, hrun, hadd⟩ := (valueReturn_eq_ok hs hvalue).mp hrun
    exact ((h.expression hrun).of_read hs hsign).add hadd
  · exact .leaf hs hsign rfl ((bareJump_eq_ok hs hvalue).mp hrun)

lemma primary_succ (h : NumbersAt n) {rule : PrimaryRule}
    (hrule : Tables.standard.primary s.kind = some rule)
    (hrun : primaryWithin .standard (n + 1) rule s = .ok t s') : Occupies s [t] s' := by
  obtain ⟨token, ts, hs, hmem⟩ := exists_of_primary hrule
  -- no expression begins with the sign
  have hsign : token.kind ≠ .colonEqual := by
    intro hsign
    rw [hsign] at hmem
    cases rule <;> simp [beginningKinds] at hmem
  cases rule with
  | unary =>
      obtain ⟨operand, s₁, hoperand, hadd⟩ := (unary_eq_ok hs).mp hrun
      exact ((h.operand hoperand).of_read hs hsign).add hadd
  | number => exact .leaf hs hsign rfl ((number_eq_ok hs).mp hrun)
  | string =>
      obtain ⟨token, ts, hs, htoken, hadd⟩ := string_eq_ok.mp hrun
      exact .leaf hs (by simp [htoken]) rfl hadd
  | char =>
      obtain ⟨token, ts, hs, htoken, hadd⟩ := char_eq_ok.mp hrun
      exact .leaf hs (by simp [htoken]) rfl hadd
  | boolean => exact .leaf hs hsign rfl ((boolean_eq_ok hs).mp hrun)
  | identifier => exact h.identifier hs (by simpa [beginningKinds] using hmem) hrun
  | grouping =>
      obtain ⟨inner, s₁, closing, ts₁, hinner, hrest, hclosing, rfl, rfl⟩ :=
        (grouping_eq_ok hs (by simpa [beginningKinds] using hmem)).mp hrun
      exact ((h.expression hinner).of_read hs hsign).read hrest (by simp [hclosing])
  | block => exact h.block hrun
  | binding => exact h.binding hs (by simpa [beginningKinds] using hmem) hrun
  | cond => exact h.cond hs (by simpa [beginningKinds] using hmem) hrun
  | jump => exact h.jump hs hmem hrun
  | operand => simp [beginningKinds] at hmem
  | expression => simp [beginningKinds] at hmem

lemma arguments_succ (h : NumbersAt n)
    (hrun : argumentsWithin .standard (n + 1) s = .ok es s') : Occupies s es s' := by
  obtain ⟨argument, s₁, hfirst, hnext⟩ := argumentsWithin_eq_ok.mp hrun
  have hargument := h.expression hfirst
  rcases hnext with ⟨hkind, others, hothers, rfl⟩ | ⟨-, rfl, rfl⟩
  · obtain ⟨comma, ts, hrest, hcomma⟩ := State.exists_of_kind hkind (by decide)
    rw [hrest, List.tail_cons] at hothers
    exact hargument.append ((h.arguments hothers).of_read hrest (by simp [hcomma]))
  · exact hargument

lemma block_succ (h : NumbersAt n) (hrun : blockWithin .standard (n + 1) s = .ok t s') :
    Occupies s [t] s' := by
  obtain ⟨opening, ts, statements, s₁, closing, ts₁, hs, hopening, -, hstatements, hrest,
    hclosing, hadd⟩ := blockWithin_eq_ok.mp hrun
  have hinner := (h.statements hstatements).of_read hs (by simp [hopening])
  exact (hinner.read hrest (by simp [hclosing])).add hadd

lemma statements_succ (h : NumbersAt n)
    (hrun : statementsWithin .standard (n + 1) s = .ok es s') : Occupies s es s' := by
  rcases statementsWithin_eq_ok.mp hrun with ⟨-, rfl, rfl⟩ | ⟨-, statement, s₁, u, s₂, others,
    hfirst, hend, hothers, rfl⟩
  · exact .none _
  · have hothers : Occupies s₁ others s' := by
      rcases statementEnd_eq_ok.mp hend with ⟨hkind, rfl⟩ | ⟨-, rfl⟩ | ⟨-, -, -, rfl⟩
      · obtain ⟨semicolon, ts, hrest, hsemicolon⟩ := State.exists_of_kind hkind (by decide)
        rw [hrest, List.tail_cons] at hothers
        exact (h.statements hothers).of_read hrest (by simp [hsemicolon])
      · exact h.statements hothers
      · exact h.statements hothers
    exact (h.expression hfirst).append hothers

end NumbersAt

/-- **How the parser numbers.** With any number of steps, every part of the parser fills the numbers
that it gives out with what it returns and a name for each sign `:=`. -/
lemma numbersAt (n : ℕ) : NumbersAt n := by
  induction n with
  | zero =>
      refine ⟨?_, ?_, ?_, ?_, ?_, ?_, ?_⟩
      all_goals intros; exact absurd ‹_› throw_ne_ok
  | succ n ih =>
      refine ⟨?_, ih.climb_succ, ?_, ih.primary_succ, ih.arguments_succ, ih.block_succ,
        ih.statements_succ⟩
      · intro s t s' hrun
        obtain ⟨left, s₁, hleft, hclimb⟩ := expressionWithin_eq_ok.mp hrun
        exact ih.climb (ih.operand hleft) hclimb
      · intro s t s' hrun
        obtain ⟨rule, hrule, hprimary⟩ := operandWithin_eq_ok.mp hrun
        exact ih.primary hrule hprimary

/-! ### Programs -/

/-- A block is stored last of all that is read with it. -/
lemma size_of_block (h : block .standard s = .ok t s') : s'.arena.size = t.id + 1 := by
  have hbudget : 8 * (s.rest.length + 1) = 8 * s.rest.length + 7 + 1 := by omega
  have hrun : blockWithin .standard (8 * s.rest.length + 7 + 1) s = .ok t s' := hbudget ▸ h
  obtain ⟨_, _, _, s₁, _, _, _, _, _, _, _, _, hadd⟩ := blockWithin_eq_ok.mp hrun
  obtain ⟨rfl, rfl⟩ := add_eq_ok.mp hadd
  exact size_add _ _ _

/-- The trees of the bodies among some items. -/
def itemBodies (a : Arena) (is : List Item) : List Tree :=
  (is.filterMap Item.function?).map fun f => a.tree f.body

/-- The bodies of the items that are read fill the numbers given out, one after the other, with a
name for each sign `:=`. -/
lemma items_fillInTurn {is : List Item} (h : itemsWithin .standard n s = .ok is s') :
    s.arena.Extends s'.arena ∧ s'.arena.FillsInTurn s.arena.size (itemBodies s'.arena is)
      s'.arena.size (definitionSigns s.rest) := by
  induction n generalizing s is with
  | zero => exact absurd h throw_ne_ok
  | succ n ih =>
      rcases itemsWithin_eq_ok.mp h with ⟨hs, rfl, rfl⟩ | ⟨-, i, s₁, others, hi, hothers, rfl⟩
      · rw [hs]
        exact ⟨.refl _, .nil⟩
      · obtain ⟨hextends, hfills⟩ := ih hothers
        rcases item_eq_ok.mp hi with ⟨-, f, hf, rfl⟩ | ⟨-, p, hp, rfl⟩
        · obtain ⟨p, s₂, body, hp, hbody, rfl⟩ := function_eq_ok.mp hf
          obtain ⟨ts', hprototype, rfl⟩ := prototype_sound hp
          have hoccupies := (numbersAt _).block hbody
          obtain ⟨k, hfirst, hsigns⟩ := hoccupies.fills
          have hstored := (hoccupies.stores body (List.mem_singleton_self _)).mono hextends
          rw [size_of_block hbody] at hfirst hfills
          rw [State.rest_moved] at hsigns
          refine ⟨hoccupies.extends_arena.trans hextends, ?_⟩
          rw [hprototype.definitionSigns_eq, hsigns]
          have htree : itemBodies s'.arena (.function ⟨p, body.id⟩ :: others)
              = body :: itemBodies s'.arena others := by
            simp only [itemBodies, List.filterMap_cons, Item.function?, List.map_cons,
              hstored.tree_eq]
          rw [htree]
          exact .cons (hfirst.mono hextends) hfills
        · obtain ⟨word, ts, s₂, semicolon, ts₁, hs, hword, hhead, hrest, hsemicolon, rfl⟩ :=
            declaration_eq_ok.mp hp
          obtain ⟨ts', hprototype, rfl⟩ := prototype_sound hhead
          rw [State.rest_moved] at hrest
          rw [State.rest_moved, hrest] at hprototype
          refine ⟨hextends, ?_⟩
          rw [hs, definitionSigns_cons_of_kind hword (by decide), hprototype.definitionSigns_eq,
            definitionSigns_cons_of_kind hsemicolon (by decide)]
          exact hfills

/-- The bodies of a program fill its store, one after the other, with a name for each sign `:=`. -/
lemma fillsInTurn_of_parse {tokens : List Token} {log : Log} {p : Program}
    (h : (parse tokens log).1 = some p) :
    p.arena.FillsInTurn 0 (p.functions.map p.body) p.arena.size (definitionSigns tokens) := by
  obtain ⟨s', hprogram⟩ := parse_eq_some.mp h
  obtain ⟨is, s₁, his, -, rfl⟩ := program_eq_ok.mp hprogram
  exact (items_fillInTurn his).2

end Parsing

end Fern
