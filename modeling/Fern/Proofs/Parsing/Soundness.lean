import Mathlib.Tactic
import Fern.Proofs.Parsing.Headers
import Fern.Proofs.Parsing.Operators
import Fern.Proofs.Parsing.Storage

/-!
What the parser reads as an expression is one.

* `Delivers`: a run leaves the stored expressions in place and stores those it returns, with numbers
  of their own.
* `isTarget_of_isExpression`: an expression that is a name can be assigned to.
* `SoundAt`: with a given number of steps, every part of the parser returns what the grammar calls
  by the same name. The operators after an operand need an invariant: the operand so far is a chain
  of some layer, and the next operator does not belong to a layer below it.
* `soundAt`: this holds for every number of steps.
-/

namespace Fern.Parsing

/-! ### Stored results -/

/-- A run from `s` to `s'` leaves the stored expressions in place and stores those in `es`, one
after the other and each after its subexpressions. -/
structure Delivers (s : State) (es : List Tree) (s' : State) : Prop where
  extends_arena : s.arena.Extends s'.arena
  stored : ∀ e ∈ es, s'.arena.Stores e
  laid : Tree.Laid s.arena.size es s'.arena.size

variable {n : ℕ} {s s₁ s' : State} {t : Tree} {es fs : List Tree} {ts ts' : List Token}

lemma Delivers.none (s : State) : Delivers s [] s := ⟨.refl _, by simp, .nil le_rfl⟩

/-- One run after the other delivers what both deliver. -/
lemma Delivers.append (h : Delivers s es s₁) (h' : Delivers s₁ fs s') :
    Delivers s (es ++ fs) s' := by
  refine ⟨h.extends_arena.trans h'.extends_arena, fun e he => ?_, h.laid.append h'.laid⟩
  rcases List.mem_append.mp he with he | he
  · exact (h.stored e he).mono h'.extends_arena
  · exact h'.stored e he

/-- What the second of two runs delivers stays delivered by both. -/
lemma Delivers.trans (h : Delivers s es s₁) (h' : Delivers s₁ fs s') : Delivers s fs s' :=
  ⟨h.extends_arena.trans h'.extends_arena, h'.stored, h'.laid.mono h.laid.le⟩

/-- Reading tokens before a run stores nothing. -/
lemma Delivers.of_moved (h : Delivers (s.moved ts) es s') : Delivers s es s' :=
  ⟨h.extends_arena, h.stored, h.laid⟩

/-- Reading tokens after a run stores nothing. -/
lemma Delivers.moved (h : Delivers s es s') (ts : List Token) : Delivers s es (s'.moved ts) :=
  ⟨h.extends_arena, h.stored, h.laid⟩

/-- An expression is stored on top of the subexpressions that have been delivered. -/
lemma Delivers.add {shape : Shape Tree} {l : Location} (h : Delivers s shape.children s₁)
    (hadd : add shape l s₁ = .ok t s') :
    ∃ id, t = .node id l shape ∧ s'.rest = s₁.rest ∧ Delivers s [t] s' := by
  obtain ⟨rfl, rfl⟩ := add_eq_ok.mp hadd
  refine ⟨s₁.arena.size, rfl, rfl, h.extends_arena.trans (Arena.extends_add _ _ _), fun e he => ?_,
    ?_⟩
  · obtain rfl := List.mem_singleton.mp he
    exact Arena.stores_add l h.stored
  · rw [State.added, Arena.size_add]
    exact h.laid.node

/-! ### Names -/

mutual

-- only parentheses take tokens; without them the layers lead down to an operand
/-- An expression that is a name is a target. -/
lemma isTarget_of_isExpression {ts ts' : List Token} {t : Tree} (h : IsExpression ts t ts')
    (hname : t.name?.isSome) : IsTarget ts t ts' := by
  cases h with
  | chain h => exact isTarget_of_isChain h hname
  | assignment => cases hname
  | definition => cases hname
termination_by (ts.length, 2, 0)

lemma isTarget_of_isChain : ∀ {layer ts t ts'}, IsChain layer ts t ts' → t.name?.isSome →
    IsTarget ts t ts'
  | _, _, _, _, .operand h, hname => isTarget_of_isOperand h hname
  | _, _, _, _, .lower h, hname => isTarget_of_isChain h hname
termination_by layer ts => (ts.length, 1, layer)

lemma isTarget_of_isOperand {ts ts' : List Token} {t : Tree} (h : IsOperand ts t ts')
    (hname : t.name?.isSome) : IsTarget ts t ts' := by
  cases h with
  | var hvar => exact .name hvar
  | grouping hopening h hclosing =>
      exact .parentheses hopening (isTarget_of_isExpression h hname) hclosing
  | block h =>
      cases h
      cases hname
  | _ => cases hname
termination_by (ts.length, 0, 0)

end

/-- An expression that is a name has the form of one. -/
lemma eq_var_of_name {name : String} (h : t.name? = some name) :
    ∃ id l, t = .node id l (.var name) := by
  unfold Tree.name? at h
  split at h
  · cases h
    exact ⟨_, _, rfl⟩
  · cases h

/-- A chain of one layer is one of every layer above. -/
lemma IsChain.mono {below layer : ℕ} (h : IsChain below ts t ts') (hle : below ≤ layer) :
    IsChain layer ts t ts' := by
  induction hle with
  | refl => exact h
  | step _ ih => exact .lower ih

/-! ### The invariant -/

/-- With `n` steps, what a part of the parser returns is what the grammar calls by the same name. In
`chain` and `whole` the expression `left` has been read from the tokens `origin` as a chain of the
layer `below` and stored since the state `s₀`, and the next operator is of this layer or a weaker
one. -/
structure SoundAt (n : ℕ) : Prop where
  expression : ∀ {s t s'}, expressionWithin .standard n s = .ok t s' →
    IsExpression s.rest t s'.rest ∧ Delivers s [t] s'
  chain : ∀ {layer below : ℕ} {origin left s₀ s t s'}, layer ≤ 4 → below ≤ layer →
    IsChain below origin left s.rest → level s.kind ≤ 6 - below → Delivers s₀ [left] s →
    climbWithin .standard n (6 - layer) left s = .ok t s' →
    IsChain layer origin t s'.rest ∧ level s'.kind < 6 - layer ∧ Delivers s₀ [t] s'
  whole : ∀ {below : ℕ} {origin left s₀ s t s'}, below ≤ 4 →
    IsChain below origin left s.rest → level s.kind ≤ 6 - below → Delivers s₀ [left] s →
    climbWithin .standard n 0 left s = .ok t s' →
    IsExpression origin t s'.rest ∧ Delivers s₀ [t] s'
  assigned : ∀ {left s t s'}, left.name? = none → level s.kind < 2 →
    climbWithin .standard n 0 left s = .ok t s' → t = left ∧ s' = s
  operand : ∀ {s t s'}, operandWithin .standard n s = .ok t s' →
    IsOperand s.rest t s'.rest ∧ Delivers s [t] s'
  primary : ∀ {rule s t s'}, Tables.standard.primary s.kind = some rule →
    primaryWithin .standard n rule s = .ok t s' → IsOperand s.rest t s'.rest ∧ Delivers s [t] s'
  arguments : ∀ {s es s'}, argumentsWithin .standard n s = .ok es s' →
    AreArguments s.rest es s'.rest ∧ Delivers s es s'
  block : ∀ {s t s'}, blockWithin .standard n s = .ok t s' →
    IsBlock s.rest t s'.rest ∧ Delivers s [t] s'
  statements : ∀ {s es s'}, statementsWithin .standard n s = .ok es s' →
    (s.kind = .rightBrace ∧ es = [] ∧ s' = s) ∨
      s.kind ≠ .rightBrace ∧ AreStatements s.rest es s'.rest ∧ Delivers s es s'

/-! ### Operators -/

/-- The right operand of an operator whose level is `5 - layer` is a chain of that layer, and no
operator of a layer up to it follows. -/
lemma SoundAt.right (h : SoundAt n) {layer : ℕ} {power : Power} {first right : Tree}
    {s s₁ s₂ : State}
    (hlayer : layer ≤ 4) (hpower : power.level = 5 - layer)
    (hfirst : operandWithin .standard n s = .ok first s₁)
    (hright : (if power.level < level s₁.kind then
      climbWithin .standard n (power.level + 1) first else pure first) s₁ = .ok right s₂) :
    IsChain layer s.rest right s₂.rest ∧ level s₂.kind ≤ 5 - layer ∧ Delivers s [right] s₂ := by
  obtain ⟨hoperand, hdelivers⟩ := h.operand hfirst
  have hchain : IsChain 0 s.rest first s₁.rest := .operand hoperand
  split_ifs at hright with hstronger
  · have hleast : power.level + 1 = 6 - layer := by omega
    have hnext : level s₁.kind ≤ 6 - (0 : ℕ) := level_le _
    rw [hleast] at hright
    obtain ⟨hmore, hlevel, hdelivers'⟩ :=
      h.chain hlayer (Nat.zero_le _) hchain hnext hdelivers hright
    exact ⟨hmore, by omega, hdelivers'⟩
  · obtain ⟨rfl, rfl⟩ := pure_eq_ok.mp hright
    exact ⟨hchain.mono (Nat.zero_le _), by omega, hdelivers⟩

/-- An operator of a layer makes a longer chain of a chain and a right operand. -/
lemma SoundAt.joined (h : SoundAt n) {layer below : ℕ} {power : Power}
    {left first right joined : Tree} {operator : Token} {origin ts : List Token}
    {s₀ s s₁ s₂ s₃ : State}
    (hs : s.rest = operator :: ts) (hchain : IsChain below origin left s.rest)
    (hbelow : below ≤ layer + 1) (hleft : Delivers s₀ [left] s) (hlayer : layer < 4)
    (hoperator : operator.kind ∈ layerOperators (layer + 1)) (hpower : power.level = 5 - layer)
    (hfirst : operandWithin .standard n (s.moved ts) = .ok first s₁)
    (hright : (if power.level < level s₁.kind then
      climbWithin .standard n (power.level + 1) first else pure first) s₁ = .ok right s₂)
    (hjoin : join .binary left operator right s₂ = .ok joined s₃) :
    IsChain (layer + 1) origin joined s₃.rest ∧ level s₃.kind ≤ 6 - (layer + 1 : ℕ) ∧
      Delivers s₀ [joined] s₃ := by
  obtain ⟨hoperand, hlevel, hdelivers⟩ := h.right hlayer.le hpower hfirst hright
  obtain ⟨id, rfl, hrest, hdelivers'⟩ := (hleft.append hdelivers.of_moved).add hjoin
  rw [hs] at hchain
  rw [State.kind_eq_of_rest_eq hrest, hrest]
  exact ⟨.join (hchain.mono hbelow) hoperator hoperand, by push_cast; omega, hdelivers'⟩

/-- An assignment makes an expression of a name and a right operand. -/
lemma SoundAt.assignment (h : SoundAt n) {below : ℕ} {power : Power}
    {left first right joined : Tree} {operator : Token} {origin ts : List Token}
    {s₀ s s₁ s₂ s₃ : State}
    (hs : s.rest = operator :: ts) (hchain : IsChain below origin left s.rest)
    (hleft : Delivers s₀ [left] s) (hpower : power.level = 1)
    (hoperator : operator.kind = .equal ∨ operator.kind = .colonEqual)
    (hfirst : operandWithin .standard n (s.moved ts) = .ok first s₁)
    (hright : (if power.level < level s₁.kind then
      climbWithin .standard n (power.level + 1) first else pure first) s₁ = .ok right s₂)
    (hjoin : join .assignment left operator right s₂ = .ok joined s₃) :
    IsExpression origin joined s₃.rest ∧ joined.name? = none ∧ level s₃.kind < 2 ∧
      Delivers s₀ [joined] s₃ := by
  obtain ⟨hvalue, hlevel, hdelivers⟩ := h.right le_rfl (by simp [hpower]) hfirst hright
  cases hname : left.name? with
  | none => exact absurd hjoin (join_assignment_ne_ok hname)
  | some name =>
      obtain ⟨targetId, l, rfl⟩ := eq_var_of_name hname
      have htarget : IsTarget origin (.node targetId l (.var name)) (operator :: ts) :=
        hs ▸ isTarget_of_isChain hchain (by simp [hname])
      rcases hoperator with hequal | hcolon
      · rw [join_equal hname hequal] at hjoin
        obtain ⟨id, rfl, hrest, hdelivers'⟩ := (hleft.append hdelivers.of_moved).add hjoin
        rw [State.kind_eq_of_rest_eq hrest, hrest]
        exact ⟨.assignment htarget hequal hvalue, rfl, by push_cast at hlevel; omega, hdelivers'⟩
      · rw [join_colonEqual hname hcolon] at hjoin
        obtain ⟨id, rfl, hrest, hdelivers'⟩ := (hleft.trans hdelivers.of_moved).add hjoin
        rw [State.kind_eq_of_rest_eq hrest, hrest]
        exact ⟨.definition htarget hcolon hvalue, rfl, by push_cast at hlevel; omega, hdelivers'⟩

/-- The operators after an operand that are at least as strong as a layer make a chain of it. -/
lemma SoundAt.chain_succ (h : SoundAt n) {layer below : ℕ} {origin : List Token} {left t : Tree}
    {s₀ s s' : State} (hlayer : layer ≤ 4) (hbelow : below ≤ layer)
    (hchain : IsChain below origin left s.rest) (hnext : level s.kind ≤ 6 - below)
    (hleft : Delivers s₀ [left] s)
    (hrun : climbWithin .standard (n + 1) (6 - layer) left s = .ok t s') :
    IsChain layer origin t s'.rest ∧ level s'.kind < 6 - layer ∧ Delivers s₀ [t] s' := by
  by_cases hstop : level s.kind < 6 - layer
  · rw [climbWithin_stop hstop] at hrun
    cases hrun
    exact ⟨hchain.mono hbelow, hstop, hleft⟩
  · obtain ⟨operator, ts, power, rule, hs, hrule, hle⟩ := exists_operator (by omega) hstop
    obtain ⟨first, s₁, right, s₂, joined, s₃, hfirst, hright, hjoin, hrun⟩ :=
      (climbWithin_operator_eq_ok hs hrule hle).mp hrun
    rw [State.kind_of_rest hs, level_of_operator hrule] at hnext
    rcases operator_cases hrule with ⟨-, hpower, -⟩ | ⟨rfl, upper, hupper, hoperator, hpower⟩
    · omega
    · obtain ⟨hjoined, hlevel, hdelivers⟩ :=
        h.joined hs hchain (by omega) hleft hupper hoperator hpower hfirst hright hjoin
      exact h.chain hlayer (by omega) hjoined hlevel hdelivers hrun

/-- After an assignment no operator is taken. -/
lemma SoundAt.assigned_succ {left t : Tree} {s s' : State} (hname : left.name? = none)
    (hnext : level s.kind < 2) (hrun : climbWithin .standard (n + 1) 0 left s = .ok t s') :
    t = left ∧ s' = s := by
  by_cases hstop : level s.kind < 0
  · rw [climbWithin_stop hstop] at hrun
    cases hrun
    exact ⟨rfl, rfl⟩
  · obtain ⟨operator, ts, power, rule, hs, hrule, hle⟩ := exists_operator le_rfl hstop
    obtain ⟨first, s₁, right, s₂, joined, s₃, -, -, hjoin, -⟩ :=
      (climbWithin_operator_eq_ok hs hrule hle).mp hrun
    rw [State.kind_of_rest hs, level_of_operator hrule] at hnext
    rcases operator_cases hrule with ⟨rfl, -, -⟩ | ⟨-, upper, hupper, -, hpower⟩
    · exact absurd hjoin (join_assignment_ne_ok hname)
    · omega

/-- The operators after an operand make an expression of it. -/
lemma SoundAt.whole_succ (h : SoundAt n) {below : ℕ} {origin : List Token} {left t : Tree}
    {s₀ s s' : State} (hbelow : below ≤ 4) (hchain : IsChain below origin left s.rest)
    (hnext : level s.kind ≤ 6 - below) (hleft : Delivers s₀ [left] s)
    (hrun : climbWithin .standard (n + 1) 0 left s = .ok t s') :
    IsExpression origin t s'.rest ∧ Delivers s₀ [t] s' := by
  by_cases hstop : level s.kind < 0
  · rw [climbWithin_stop hstop] at hrun
    cases hrun
    exact ⟨.chain (hchain.mono hbelow), hleft⟩
  · obtain ⟨operator, ts, power, rule, hs, hrule, hle⟩ := exists_operator le_rfl hstop
    obtain ⟨first, s₁, right, s₂, joined, s₃, hfirst, hright, hjoin, hrun⟩ :=
      (climbWithin_operator_eq_ok hs hrule hle).mp hrun
    rcases operator_cases hrule with
      ⟨rfl, hpower, hassign⟩ | ⟨rfl, upper, hupper, hoperator, hpower⟩
    · obtain ⟨hjoined, hname, hlevel, hdelivers⟩ :=
        h.assignment hs hchain hleft hpower hassign hfirst hright hjoin
      obtain ⟨rfl, rfl⟩ := h.assigned hname hlevel hrun
      exact ⟨hjoined, hdelivers⟩
    · rw [State.kind_of_rest hs, level_of_operator hrule] at hnext
      obtain ⟨hjoined, hlevel, hdelivers⟩ :=
        h.joined hs hchain (by omega) hleft hupper hoperator hpower hfirst hright hjoin
      exact h.whole (by omega) hjoined hlevel hdelivers hrun

/-! ### Operands -/

/-- The kinds of tokens with which an expression begins in a given way. -/
def beginningKinds : PrimaryRule → List Token.Kind
  | .unary => [.minus, .bang]
  | .number => [.integer, .float]
  | .string => [.string]
  | .char => [.char]
  | .boolean => [.trueWord, .falseWord]
  | .identifier => [.ident]
  | .grouping => [.leftParen]
  | .block => [.leftBrace]
  | .binding => [.letWord]
  | .cond => [.ifWord]
  | .jump => [.returnWord, .breakWord, .continueWord]
  | .operand | .expression => []

/-- An expression that begins in some way begins with a token of one of the kinds for it. -/
lemma exists_of_primary {rule : PrimaryRule} (h : Tables.standard.primary s.kind = some rule) :
    ∃ token ts, s.rest = token :: ts ∧ token.kind ∈ beginningKinds rule := by
  have hkinds : ∀ k, Tables.standard.primary k = some rule →
      k ≠ .endOfInput ∧ k ∈ beginningKinds rule := by
    intro k hk
    cases k <;> simp only [Tables.standard, Option.some.injEq, reduceCtorEq] at hk
    all_goals subst hk; decide
  obtain ⟨hend, hmem⟩ := hkinds _ h
  obtain ⟨token, ts, hs, hkind⟩ := State.exists_of_kind rfl hend
  exact ⟨token, ts, hs, hkind ▸ hmem⟩

/-- Reading a token and storing an expression without subexpressions over it. -/
lemma delivers_leaf {shape : Shape Tree} {l : Location} (hleaf : shape.children = [])
    (hadd : add shape l (s.moved ts) = .ok t s') :
    ∃ id, t = .node id l shape ∧ s'.rest = ts ∧ Delivers s [t] s' := by
  have h : Delivers s shape.children (s.moved ts) := by
    rw [hleaf]
    exact (Delivers.none s).moved ts
  exact h.add hadd

/-- Arguments that may be left out, up to the parenthesis that closes them. -/
lemma SoundAt.call (h : SoundAt n) {name opening : Token} (hs : s.rest = name :: opening :: ts)
    (hname : name.kind = .ident) (hopening : opening.kind = .leftParen)
    (hrun : primaryWithin .standard (n + 1) .identifier s = .ok t s') :
    IsOperand s.rest t s'.rest ∧ Delivers s [t] s' := by
  obtain ⟨arguments, s₁, closing, ts₁, harguments, hrest, hclosing, hadd⟩ :=
    (call_eq_ok hs hname hopening).mp hrun
  rw [hs]
  rcases listUnless_eq_ok.mp harguments with ⟨-, rfl, rfl⟩ | ⟨-, hsome⟩
  · rw [State.rest_moved] at hrest
    subst hrest
    obtain ⟨id, rfl, hrest, hdelivers⟩ := delivers_leaf rfl hadd
    rw [hrest]
    exact ⟨.emptyCall hname hopening hclosing, hdelivers.of_moved⟩
  · obtain ⟨hlist, hdelivers⟩ := h.arguments hsome
    obtain ⟨id, rfl, hrest', hdelivers'⟩ := (hdelivers.of_moved.moved ts₁).add hadd
    rw [State.rest_moved, hrest] at hlist
    rw [hrest']
    exact ⟨.call hname hopening hlist hclosing, hdelivers'⟩

/-- An index in brackets. The name before them is stored first. -/
lemma SoundAt.subscript (h : SoundAt n) {name opening : Token} (hs : s.rest = name :: opening :: ts)
    (hname : name.kind = .ident) (hopening : opening.kind = .leftBracket)
    (hrun : primaryWithin .standard (n + 1) .identifier s = .ok t s') :
    IsOperand s.rest t s'.rest ∧ Delivers s [t] s' := by
  obtain ⟨index, s₁, closing, ts₁, hindex, hrest, hclosing, hadd⟩ :=
    (subscript_eq_ok hs hname hopening).mp hrun
  obtain ⟨hexpression, hdelivers⟩ := h.expression hindex
  obtain ⟨varId, hvar, -, hdelivers'⟩ :=
    delivers_leaf rfl (add_eq_ok.mpr ⟨rfl, rfl⟩ :
      add (.var name.lexeme) name.location (s.moved ts) = .ok _ _)
  obtain ⟨id, rfl, hrest', hdelivers''⟩ := ((hdelivers'.append hdelivers).moved ts₁).add hadd
  rw [hs, hrest', State.rest_moved]
  rw [State.rest_added, State.rest_moved, hrest] at hexpression
  have hoperand : s.built (.var name.lexeme) name.location
      = .node varId name.location (.var name.lexeme) := hvar
  rw [hoperand] at hdelivers'' ⊢
  exact ⟨.subscript hname hopening hexpression hclosing, hdelivers''⟩

/-- A name, alone, with arguments or with an index. -/
lemma SoundAt.identifier (h : SoundAt n) {name : Token} (hs : s.rest = name :: ts)
    (hname : name.kind = .ident) (hrun : primaryWithin .standard (n + 1) .identifier s = .ok t s') :
    IsOperand s.rest t s'.rest ∧ Delivers s [t] s' := by
  by_cases hparen : (s.moved ts).kind = .leftParen
  · obtain ⟨opening, us, rfl, hopening⟩ := State.exists_of_kind hparen (by decide)
    exact h.call hs hname hopening hrun
  · by_cases hbracket : (s.moved ts).kind = .leftBracket
    · obtain ⟨opening, us, rfl, hopening⟩ := State.exists_of_kind hbracket (by decide)
      exact h.subscript hs hname hopening hrun
    · obtain ⟨id, rfl, hrest, hdelivers⟩ :=
        delivers_leaf rfl ((var_eq_ok hs hname hparen hbracket).mp hrun)
      rw [hs, hrest]
      exact ⟨.var hname, hdelivers⟩

/-- A new name for a value, with a type that may be left out. -/
lemma SoundAt.binding (h : SoundAt n) {word : Token} (hs : s.rest = word :: ts)
    (hword : word.kind = .letWord) (hrun : primaryWithin .standard (n + 1) .binding s = .ok t s') :
    IsOperand s.rest t s'.rest ∧ Delivers s [t] s' := by
  obtain ⟨name, us, stated, s₁, equal, ts₁, value, s₂, rfl, hname, hstated, hrest, hequal, hvalue,
    hadd⟩ := (binding_eq_ok hs hword).mp hrun
  obtain ⟨hexpression, hdelivers⟩ := h.expression hvalue
  obtain ⟨hannotated, harena⟩ := annotation_sound hstated
  have hdelivers : Delivers s [value] s₂ :=
    ⟨harena ▸ hdelivers.extends_arena, hdelivers.stored, harena ▸ hdelivers.laid⟩
  obtain ⟨id, rfl, hrest', hdelivers'⟩ := hdelivers.add hadd
  rw [State.rest_moved, hrest] at hannotated
  rw [hs, hrest']
  exact ⟨.binding hword hname hannotated hequal hexpression, hdelivers'⟩

/-- A choice between two blocks, the second of which may be left out. -/
lemma SoundAt.cond (h : SoundAt n) {word : Token} (hs : s.rest = word :: ts)
    (hword : word.kind = .ifWord) (hrun : primaryWithin .standard (n + 1) .cond s = .ok t s') :
    IsOperand s.rest t s'.rest ∧ Delivers s [t] s' := by
  obtain ⟨condition, s₁, thenBlock, s₂, elseBlock, s₃, hcondition, hthen, helse, hadd⟩ :=
    (cond_eq_ok hs hword).mp hrun
  obtain ⟨hcondition, hdelivers₁⟩ := h.expression hcondition
  obtain ⟨hthen, hdelivers₂⟩ := h.block hthen
  have hdelivers := hdelivers₁.of_moved.append hdelivers₂
  rw [hs]
  rcases optionally_eq_ok.mp helse with ⟨hkind, elseTree, hrun, rfl⟩ | ⟨-, rfl, rfl⟩
  · obtain ⟨other, us, hrest, hother⟩ := State.exists_of_kind hkind (by decide)
    obtain ⟨helse, hdelivers₃⟩ := h.block hrun
    obtain ⟨id, rfl, hrest', hdelivers'⟩ := (hdelivers.append hdelivers₃.of_moved).add hadd
    rw [hrest] at hthen
    rw [State.rest_moved, hrest, List.tail_cons] at helse
    rw [hrest']
    exact ⟨.condElse hword hcondition hthen hother helse, hdelivers'⟩
  · obtain ⟨id, rfl, hrest', hdelivers'⟩ := hdelivers.add hadd
    rw [hrest']
    exact ⟨.cond hword hcondition hthen, hdelivers'⟩

/-- A `return`, `break` or `continue`. -/
lemma SoundAt.jump (h : SoundAt n) {word : Token} (hs : s.rest = word :: ts)
    (hword : word.kind ∈ beginningKinds .jump)
    (hrun : primaryWithin .standard (n + 1) .jump s = .ok t s') :
    IsOperand s.rest t s'.rest ∧ Delivers s [t] s' := by
  rw [hs]
  by_cases hvalue : word.kind = .returnWord ∧ (s.moved ts).kind ≠ .semicolon ∧
    (s.moved ts).kind ≠ .rightBrace
  · obtain ⟨value, s₁, hrun, hadd⟩ := (valueReturn_eq_ok hs hvalue).mp hrun
    obtain ⟨hexpression, hdelivers⟩ := h.expression hrun
    obtain ⟨id, rfl, hrest, hdelivers'⟩ := hdelivers.of_moved.add hadd
    rw [hrest, hvalue.1]
    rw [hvalue.1] at hdelivers'
    exact ⟨.valueReturn hvalue.1 hexpression, hdelivers'⟩
  · obtain ⟨id, rfl, hrest, hdelivers⟩ := delivers_leaf rfl ((bareJump_eq_ok hs hvalue).mp hrun)
    rw [hrest]
    refine ⟨?_, hdelivers⟩
    simp only [beginningKinds, List.mem_cons, List.not_mem_nil, or_false] at hword
    rcases hword with hreturn | hloop
    · have hends : (s.moved ts).kind = .semicolon ∨ (s.moved ts).kind = .rightBrace := by tauto
      obtain ⟨next, us, hts, hnext⟩ : ∃ next us, (s.moved ts).rest = next :: us ∧
          (next.kind = .semicolon ∨ next.kind = .rightBrace) := by
        rcases hends with hend | hend
        · obtain ⟨next, us, hts, hnext⟩ := State.exists_of_kind hend (by decide)
          exact ⟨next, us, hts, .inl hnext⟩
        · obtain ⟨next, us, hts, hnext⟩ := State.exists_of_kind hend (by decide)
          exact ⟨next, us, hts, .inr hnext⟩
      rw [State.rest_moved] at hts
      rw [hts, hreturn]
      exact .bareReturn hreturn hnext
    · exact .loopControl hloop

/-- An expression that begins in any way. -/
lemma SoundAt.primary_succ (h : SoundAt n) {rule : PrimaryRule}
    (hrule : Tables.standard.primary s.kind = some rule)
    (hrun : primaryWithin .standard (n + 1) rule s = .ok t s') :
    IsOperand s.rest t s'.rest ∧ Delivers s [t] s' := by
  obtain ⟨token, ts, hs, hmem⟩ := exists_of_primary hrule
  cases rule with
  | unary =>
      obtain ⟨operand, s₁, hoperand, hadd⟩ := (unary_eq_ok hs).mp hrun
      obtain ⟨hoperand, hdelivers⟩ := h.operand hoperand
      obtain ⟨id, rfl, hrest, hdelivers'⟩ := hdelivers.of_moved.add hadd
      rw [hs, hrest]
      exact ⟨.unary (by simpa [beginningKinds] using hmem) hoperand, hdelivers'⟩
  | number =>
      rw [number_eq_ok hs, State.lexeme_of_rest hs] at hrun
      obtain ⟨id, rfl, hrest, hdelivers⟩ := delivers_leaf rfl hrun
      rw [hs, hrest]
      exact ⟨.number (by simpa [beginningKinds] using hmem), hdelivers⟩
  | string =>
      obtain ⟨token, ts, hs, htoken, hadd⟩ := string_eq_ok.mp hrun
      obtain ⟨id, rfl, hrest, hdelivers⟩ := delivers_leaf rfl hadd
      rw [hs, hrest]
      exact ⟨.string htoken, hdelivers⟩
  | char =>
      obtain ⟨token, ts, hs, htoken, hadd⟩ := char_eq_ok.mp hrun
      obtain ⟨id, rfl, hrest, hdelivers⟩ := delivers_leaf rfl hadd
      rw [hs, hrest]
      exact ⟨.char htoken, hdelivers⟩
  | boolean =>
      obtain ⟨id, rfl, hrest, hdelivers⟩ := delivers_leaf rfl ((boolean_eq_ok hs).mp hrun)
      rw [hs, hrest]
      exact ⟨.boolean (by simpa [beginningKinds] using hmem), hdelivers⟩
  | identifier => exact h.identifier hs (by simpa [beginningKinds] using hmem) hrun
  | grouping =>
      have hopening : token.kind = .leftParen := by simpa [beginningKinds] using hmem
      obtain ⟨inner, s₁, closing, ts₁, hinner, hrest, hclosing, rfl, rfl⟩ :=
        (grouping_eq_ok hs hopening).mp hrun
      obtain ⟨hexpression, hdelivers⟩ := h.expression hinner
      rw [hrest] at hexpression
      rw [hs]
      exact ⟨.grouping hopening hexpression hclosing, hdelivers.of_moved.moved ts₁⟩
  | block =>
      obtain ⟨hblock, hdelivers⟩ := h.block hrun
      exact ⟨.block hblock, hdelivers⟩
  | binding => exact h.binding hs (by simpa [beginningKinds] using hmem) hrun
  | cond => exact h.cond hs (by simpa [beginningKinds] using hmem) hrun
  | jump => exact h.jump hs hmem hrun
  | operand => simp [beginningKinds] at hmem
  | expression => simp [beginningKinds] at hmem

/-! ### Lists and blocks -/

lemma SoundAt.arguments_succ (h : SoundAt n)
    (hrun : argumentsWithin .standard (n + 1) s = .ok es s') :
    AreArguments s.rest es s'.rest ∧ Delivers s es s' := by
  obtain ⟨argument, s₁, hfirst, hnext⟩ := argumentsWithin_eq_ok.mp hrun
  obtain ⟨hargument, hdelivers⟩ := h.expression hfirst
  rcases hnext with ⟨hkind, others, hothers, rfl⟩ | ⟨-, rfl, rfl⟩
  · obtain ⟨comma, ts, hrest, hcomma⟩ := State.exists_of_kind hkind (by decide)
    obtain ⟨hmore, hdelivers'⟩ := h.arguments hothers
    rw [hrest] at hargument
    rw [State.rest_moved, hrest, List.tail_cons] at hmore
    exact ⟨.more hargument hcomma hmore, hdelivers.append hdelivers'.of_moved⟩
  · exact ⟨.last hargument, hdelivers⟩

lemma SoundAt.block_succ (h : SoundAt n) (hrun : blockWithin .standard (n + 1) s = .ok t s') :
    IsBlock s.rest t s'.rest ∧ Delivers s [t] s' := by
  obtain ⟨opening, ts, statements, s₁, closing, ts₁, hs, hopening, hnonempty, hstatements, hrest,
    hclosing, hadd⟩ := blockWithin_eq_ok.mp hrun
  rcases h.statements hstatements with ⟨hempty, -, -⟩ | ⟨-, hlist, hdelivers⟩
  · exact absurd hempty hnonempty
  · obtain ⟨id, rfl, hrest', hdelivers'⟩ := (hdelivers.of_moved.moved ts₁).add hadd
    rw [State.rest_moved, hrest] at hlist
    rw [hs, hrest']
    exact ⟨.braces hopening hlist hclosing, hdelivers'⟩

lemma SoundAt.statements_succ (h : SoundAt n)
    (hrun : statementsWithin .standard (n + 1) s = .ok es s') :
    (s.kind = .rightBrace ∧ es = [] ∧ s' = s) ∨
      s.kind ≠ .rightBrace ∧ AreStatements s.rest es s'.rest ∧ Delivers s es s' := by
  rcases statementsWithin_eq_ok.mp hrun with hempty | ⟨hnonempty, statement, s₁, u, s₂, others,
    hfirst, hend, hothers, rfl⟩
  · exact .inl hempty
  · refine .inr ⟨hnonempty, ?_⟩
    obtain ⟨hstatement, hdelivers⟩ := h.expression hfirst
    rcases statementEnd_eq_ok.mp hend with ⟨hkind, rfl⟩ | ⟨hkind, rfl⟩ | ⟨-, hkind, hblock, rfl⟩
    · obtain ⟨semicolon, ts, hrest, hsemicolon⟩ := State.exists_of_kind hkind (by decide)
      rw [hrest] at hstatement
      rw [hrest, List.tail_cons] at hothers
      rcases h.statements hothers with ⟨-, rfl, rfl⟩ | ⟨-, hmore, hdelivers'⟩
      · exact ⟨.closed hstatement hsemicolon, hdelivers.moved ts⟩
      · exact ⟨.separated hstatement hsemicolon hmore, hdelivers.append hdelivers'.of_moved⟩
    · rcases h.statements hothers with ⟨-, rfl, rfl⟩ | ⟨hmore, -⟩
      · exact ⟨.last hstatement, hdelivers⟩
      · exact absurd hkind hmore
    · rcases h.statements hothers with ⟨hempty, -⟩ | ⟨-, hmore, hdelivers'⟩
      · exact absurd hempty hkind
      · exact ⟨.adjacent hstatement hblock hmore, hdelivers.append hdelivers'⟩

/-! ### Any number of steps -/

/-- **Soundness of the parts.** What the parser reads is what the grammar says, however many steps
it is allowed. -/
lemma soundAt (n : ℕ) : SoundAt n := by
  induction n with
  | zero =>
      refine ⟨?_, ?_, ?_, ?_, ?_, ?_, ?_, ?_, ?_⟩
      all_goals intros; exact absurd ‹_› throw_ne_ok
  | succ n ih =>
      refine ⟨?_, ih.chain_succ, ih.whole_succ, SoundAt.assigned_succ, ?_, ih.primary_succ,
        ih.arguments_succ, ih.block_succ, ih.statements_succ⟩
      · intro s t s' hrun
        obtain ⟨left, s₁, hleft, hclimb⟩ := expressionWithin_eq_ok.mp hrun
        obtain ⟨hoperand, hdelivers⟩ := ih.operand hleft
        exact ih.whole (Nat.zero_le _) (.operand hoperand) (level_le _) hdelivers hclimb
      · intro s t s' hrun
        obtain ⟨rule, hrule, hprimary⟩ := operandWithin_eq_ok.mp hrun
        exact ih.primary hrule hprimary

end Fern.Parsing
