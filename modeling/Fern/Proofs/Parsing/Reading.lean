import Mathlib.Tactic
import Fern.Proofs.Parsing.Headers
import Fern.Proofs.Parsing.Operators

/-!
Runs of the parser that succeed, as a relation between the tokens before and after.

* `Reads`: with enough steps for the tokens, a part of the parser goes from some tokens to others,
  whatever has been stored, and what it returns is of a certain sort.
* `ReadsOperand`, `ReadsExpression`, `ReadsArguments`, `ReadsBlock`, `ReadsStatements`: this for the
  parts of the parser, each with the steps that it needs beyond eight for a token.
* `ReadsOperand.unary` and its companions: the parts of a form are read, hence the form.
* `Continuation`: the operators and operands that can come after an operand; `Continuation.climb`
  reads them all.
-/

namespace Fern.Parsing

/-! ### Reading -/

/-- The kind of the first token. -/
def headKind : List Token → Token.Kind
  | [] => .endOfInput
  | t :: _ => t.kind

lemma State.kind_eq {s : State} {ts : List Token} (h : s.rest = ts) : s.kind = headKind ts := by
  subst h
  cases hs : s.rest <;> simp [State.kind, headKind, hs]

/-- Any expression. -/
def AnyTree (_ : Tree) : Prop := True

/-- Any expressions. -/
def AnyTrees (_ : List Tree) : Prop := True

/-- Expressions of a certain form. -/
def Formed (form : Shape Tree → Prop) (t : Tree) : Prop :=
  ∃ id l shape, t = .node id l shape ∧ form shape

/-- With eight steps for each of the tokens `ts` and `extra` ones, the part `p` of the parser goes
on to the tokens `ts'` and returns something `good`. -/
def Reads {α : Type} (p : ℕ → Parse α) (extra : ℕ) (good : α → Prop) (ts ts' : List Token) : Prop :=
  ∀ s : State, s.rest = ts → ∃ a s', s'.rest = ts' ∧ good a ∧
    ∀ n, 8 * ts.length + extra ≤ n → p n s = .ok a s'

/-- An operand is read, and it has at least one token. -/
structure ReadsOperand (good : Tree → Prop) (ts ts' : List Token) : Prop where
  shorter : ts'.length < ts.length
  run : Reads (operandWithin .standard) 2 good ts ts'

/-- An expression is read, and it has at least one token. -/
structure ReadsExpression (good : Tree → Prop) (ts ts' : List Token) : Prop where
  shorter : ts'.length < ts.length
  run : Reads (expressionWithin .standard) 3 good ts ts'

/-- The operators of a level that is at least `least` are read, whatever is to their left. -/
structure ReadsClimb (least : ℤ) (ts ts' : List Token) : Prop where
  shorter : ts'.length ≤ ts.length
  run : ∀ left, Reads (fun n => climbWithin .standard n least left) 1 AnyTree ts ts'

/-- Arguments are read. -/
structure ReadsArguments (good : List Tree → Prop) (ts ts' : List Token) : Prop where
  shorter : ts'.length < ts.length
  run : Reads (argumentsWithin .standard) 4 good ts ts'

/-- A block is read, and it has at least one token. -/
structure ReadsBlock (good : Tree → Prop) (ts ts' : List Token) : Prop where
  shorter : ts'.length < ts.length
  run : Reads (blockWithin .standard) 0 good ts ts'

/-- The statements of a block are read. -/
structure ReadsStatements (good : List Tree → Prop) (ts ts' : List Token) : Prop where
  shorter : ts'.length ≤ ts.length
  run : Reads (statementsWithin .standard) 4 good ts ts'

section Reads

variable {α : Type} {p : ℕ → Parse α} {extra : ℕ} {good : α → Prop} {ts ts' : List Token}

/-- Where at least one step is allowed, a run may be taken apart. -/
lemma Reads.of_succ (hpos : 0 < 8 * ts.length + extra)
    (h : ∀ s : State, s.rest = ts → ∃ a s', s'.rest = ts' ∧ good a ∧
      ∀ n, 8 * ts.length + extra ≤ n + 1 → p (n + 1) s = .ok a s') : Reads p extra good ts ts' := by
  intro s hs
  obtain ⟨a, s', hs', ha, hrun⟩ := h s hs
  refine ⟨a, s', hs', ha, fun n hn => ?_⟩
  obtain ⟨m, rfl⟩ : ∃ m, n = m + 1 := Nat.exists_eq_succ_of_ne_zero (by omega)
  exact hrun m hn

lemma Reads.weaken {good' : α → Prop} (h : Reads p extra good ts ts')
    (hgood : ∀ a, good a → good' a) :
    Reads p extra good' ts ts' := by
  intro s hs
  obtain ⟨a, s', hs', ha, hrun⟩ := h s hs
  exact ⟨a, s', hs', hgood a ha, hrun⟩

end Reads

variable {good good' good'' : Tree → Prop} {goods goods' : List Tree → Prop}
  {ts ts' ts₁ : List Token} {token : Token}

lemma ReadsOperand.weaken (h : ReadsOperand good ts ts') (hgood : ∀ t, good t → good' t) :
    ReadsOperand good' ts ts' :=
  ⟨h.shorter, h.run.weaken hgood⟩

lemma ReadsOperand.any (h : ReadsOperand good ts ts') : ReadsOperand AnyTree ts ts' :=
  h.weaken fun _ _ => trivial

lemma ReadsBlock.weaken (h : ReadsBlock good ts ts') (hgood : ∀ t, good t → good' t) :
    ReadsBlock good' ts ts' :=
  ⟨h.shorter, h.run.weaken hgood⟩

lemma ReadsArguments.weaken (h : ReadsArguments goods ts ts')
    (hgood : ∀ es, goods es → goods' es) : ReadsArguments goods' ts ts' :=
  ⟨h.shorter, h.run.weaken hgood⟩

lemma ReadsArguments.any (h : ReadsArguments goods ts ts') : ReadsArguments AnyTrees ts ts' :=
  h.weaken fun _ _ => trivial

lemma ReadsStatements.weaken (h : ReadsStatements goods ts ts')
    (hgood : ∀ es, goods es → goods' es) : ReadsStatements goods' ts ts' :=
  ⟨h.shorter, h.run.weaken hgood⟩

lemma ReadsStatements.any (h : ReadsStatements goods ts ts') : ReadsStatements AnyTrees ts ts' :=
  h.weaken fun _ _ => trivial

/-! ### Operands -/

/-- An operand is read if what begins with its first token is. -/
lemma ReadsOperand.of_primary {rule : PrimaryRule}
    (hrule : Tables.standard.primary token.kind = some rule) (hshorter : ts'.length ≤ ts.length)
    (h : ∀ s : State, s.rest = token :: ts → ∃ t s', s'.rest = ts' ∧ good t ∧
      ∀ n, 8 * ts.length + 8 ≤ n → primaryWithin .standard (n + 1) rule s = .ok t s') :
    ReadsOperand good (token :: ts) ts' := by
  refine ⟨by rw [List.length_cons]; omega, ?_⟩
  intro s hs
  obtain ⟨t, s', hs', ht, hrun⟩ := h s hs
  refine ⟨t, s', hs', ht, fun n hn => ?_⟩
  rw [List.length_cons] at hn
  obtain ⟨m, rfl⟩ : ∃ m, n = m + 2 := ⟨n - 2, by omega⟩
  refine operandWithin_eq_ok.mpr ⟨rule, ?_, hrun m (by omega)⟩
  rw [State.kind_of_rest hs, hrule]

/-- An operand is read if its parts are and it is stored over them. -/
lemma ReadsOperand.of_add {rule : PrimaryRule} {form : Shape Tree → Prop}
    (hrule : Tables.standard.primary token.kind = some rule) (hshorter : ts'.length ≤ ts.length)
    (h : ∀ s : State, s.rest = token :: ts → ∃ shape l s₁, s₁.rest = ts' ∧ form shape ∧
      ∀ n, 8 * ts.length + 8 ≤ n → ∀ t s',
        add shape l s₁ = .ok t s' → primaryWithin .standard (n + 1) rule s = .ok t s') :
    ReadsOperand (Formed form) (token :: ts) ts' := by
  refine .of_primary hrule hshorter fun s hs => ?_
  obtain ⟨shape, l, s₁, hs₁, hform, hrun⟩ := h s hs
  exact ⟨s₁.built shape l, s₁.added shape l, hs₁, ⟨_, _, _, rfl, hform⟩,
    fun n hn => hrun n hn _ _ (add_run _ _ _)⟩

lemma ReadsOperand.number (h : token.kind = .integer ∨ token.kind = .float) :
    ReadsOperand (Formed (· = .number (textOrKind token) (token.kind = .float)))
      (token :: ts) ts := by
  have hrule : Tables.standard.primary token.kind = some .number := by
    rcases h with h | h <;> rw [h] <;> rfl
  refine .of_add hrule le_rfl fun s hs => ?_
  refine ⟨_, token.location, s.moved ts, rfl, rfl, fun n _ t s' hadd => (number_eq_ok hs).mpr ?_⟩
  rw [State.lexeme_of_rest hs]
  exact hadd

lemma ReadsOperand.string (h : token.kind = .string) :
    ReadsOperand (Formed (· = .string token.lexeme)) (token :: ts) ts := by
  have hrule : Tables.standard.primary token.kind = some .string := by rw [h]; rfl
  refine .of_add hrule le_rfl fun s hs => ?_
  exact ⟨_, _, s.moved ts, rfl, rfl,
    fun n _ t s' hadd => string_eq_ok.mpr ⟨token, ts, hs, h, hadd⟩⟩

lemma ReadsOperand.char (h : token.kind = .char) :
    ReadsOperand (Formed (· = .char token.lexeme)) (token :: ts) ts := by
  have hrule : Tables.standard.primary token.kind = some .char := by rw [h]; rfl
  refine .of_add hrule le_rfl fun s hs => ?_
  exact ⟨_, _, s.moved ts, rfl, rfl,
    fun n _ t s' hadd => char_eq_ok.mpr ⟨token, ts, hs, h, hadd⟩⟩

lemma ReadsOperand.boolean (h : token.kind = .trueWord ∨ token.kind = .falseWord) :
    ReadsOperand (Formed (· = .boolean (token.kind = .trueWord))) (token :: ts) ts := by
  have hrule : Tables.standard.primary token.kind = some .boolean := by
    rcases h with h | h <;> rw [h] <;> rfl
  refine .of_add hrule le_rfl fun s hs => ?_
  exact ⟨_, _, s.moved ts, rfl, rfl, fun n _ t s' hadd => (boolean_eq_ok hs).mpr hadd⟩

/-- A name is read alone if it is not called or indexed. -/
lemma ReadsOperand.var (h : token.kind = .ident) (hparen : headKind ts ≠ .leftParen)
    (hbracket : headKind ts ≠ .leftBracket) :
    ReadsOperand (Formed (· = .var token.lexeme)) (token :: ts) ts := by
  have hrule : Tables.standard.primary token.kind = some .identifier := by rw [h]; rfl
  refine .of_add hrule le_rfl fun s hs => ?_
  rw [← State.kind_eq (State.rest_moved s ts)] at hparen hbracket
  exact ⟨.var token.lexeme, _, s.moved ts, rfl, rfl,
    fun n _ t s' hadd => (var_eq_ok hs h hparen hbracket).mpr hadd⟩

lemma ReadsOperand.jump
    (h : token.kind = .returnWord ∨ token.kind = .breakWord ∨ token.kind = .continueWord)
    (hbare : token.kind = .returnWord → headKind ts = .semicolon ∨ headKind ts = .rightBrace) :
    ReadsOperand (Formed (· = .jump token.kind none)) (token :: ts) ts := by
  have hrule : Tables.standard.primary token.kind = some .jump := by
    rcases h with h | h | h <;> rw [h] <;> rfl
  refine .of_add hrule le_rfl fun s hs => ?_
  rw [← State.kind_eq (State.rest_moved s ts)] at hbare
  have hnone : ¬ (token.kind = .returnWord ∧ (s.moved ts).kind ≠ .semicolon ∧
      (s.moved ts).kind ≠ .rightBrace) := by
    rintro ⟨hreturn, hsemicolon, hbrace⟩
    exact (hbare hreturn).elim hsemicolon hbrace
  exact ⟨_, _, s.moved ts, rfl, rfl,
    fun n _ t s' hadd => (bareJump_eq_ok hs hnone).mpr hadd⟩

lemma ReadsOperand.unary (h : token.kind = .minus ∨ token.kind = .bang)
    (hoperand : ReadsOperand good ts ts') :
    ReadsOperand (Formed fun shape => ∃ e, good e ∧ shape = .unary token.kind e)
      (token :: ts) ts' := by
  have hrule : Tables.standard.primary token.kind = some .unary := by
    rcases h with h | h <;> rw [h] <;> rfl
  refine .of_add hrule hoperand.shorter.le fun s hs => ?_
  obtain ⟨operand, s₁, hs₁, hgood, hrun⟩ := hoperand.run (s.moved ts) rfl
  refine ⟨.unary token.kind operand, token.location, s₁, hs₁, ⟨operand, hgood, rfl⟩,
    fun n hn t s' hadd => ?_⟩
  exact (unary_eq_ok hs).mpr ⟨operand, s₁, hrun n (by omega), hadd⟩

lemma ReadsOperand.grouping {closing : Token} (hopening : token.kind = .leftParen)
    (hinner : ReadsExpression good ts (closing :: ts')) (hclosing : closing.kind = .rightParen) :
    ReadsOperand good (token :: ts) ts' := by
  have hrule : Tables.standard.primary token.kind = some .grouping := by rw [hopening]; rfl
  have hshorter := hinner.shorter
  rw [List.length_cons] at hshorter
  refine .of_primary hrule (by omega) fun s hs => ?_
  obtain ⟨inner, s₁, hs₁, hgood, hrun⟩ := hinner.run (s.moved ts) rfl
  refine ⟨inner, s₁.moved ts', rfl, hgood, fun n hn => ?_⟩
  exact (grouping_eq_ok hs hopening).mpr
    ⟨inner, s₁, closing, ts', hrun n (by omega), hs₁, hclosing, rfl, rfl⟩

lemma ReadsOperand.emptyCall {opening closing : Token} (hname : token.kind = .ident)
    (hopening : opening.kind = .leftParen) (hclosing : closing.kind = .rightParen) :
    ReadsOperand (Formed (· = .call token.lexeme [])) (token :: opening :: closing :: ts) ts := by
  have hrule : Tables.standard.primary token.kind = some .identifier := by rw [hname]; rfl
  refine .of_add hrule (by simp only [List.length_cons]; omega) fun s hs => ?_
  refine ⟨.call token.lexeme [], token.location, s.moved ts, rfl, rfl, fun n _ t s' hadd => ?_⟩
  have hnone : listUnless .rightParen (argumentsWithin .standard n) (s.moved (closing :: ts))
      = .ok [] (s.moved (closing :: ts)) := listUnless_eq_ok.mpr (.inl ⟨hclosing, rfl, rfl⟩)
  exact (call_eq_ok hs hname hopening).mpr
    ⟨[], s.moved (closing :: ts), closing, ts, hnone, rfl, hclosing, hadd⟩

lemma ReadsOperand.call {opening closing : Token} (hname : token.kind = .ident)
    (hopening : opening.kind = .leftParen) (hne : headKind ts ≠ .rightParen)
    (harguments : ReadsArguments goods ts (closing :: ts'))
    (hclosing : closing.kind = .rightParen) :
    ReadsOperand (Formed fun shape => ∃ es, goods es ∧ shape = .call token.lexeme es)
      (token :: opening :: ts) ts' := by
  have hrule : Tables.standard.primary token.kind = some .identifier := by rw [hname]; rfl
  have hshorter := harguments.shorter
  rw [List.length_cons] at hshorter
  refine .of_add hrule (by rw [List.length_cons]; omega) fun s hs => ?_
  obtain ⟨arguments, s₁, hs₁, hgood, hrun⟩ := harguments.run (s.moved ts) rfl
  rw [← State.kind_eq (State.rest_moved s ts)] at hne
  refine ⟨.call token.lexeme arguments, token.location, s₁.moved ts', rfl, ⟨arguments, hgood, rfl⟩,
    fun n hn t s' hadd => ?_⟩
  rw [List.length_cons] at hn
  have hsome : listUnless .rightParen (argumentsWithin .standard n) (s.moved ts)
      = .ok arguments s₁ := listUnless_eq_ok.mpr (.inr ⟨hne, hrun n (by omega)⟩)
  exact (call_eq_ok hs hname hopening).mpr
    ⟨arguments, s₁, closing, ts', hsome, hs₁, hclosing, hadd⟩

lemma ReadsOperand.subscript {opening closing : Token} (hname : token.kind = .ident)
    (hopening : opening.kind = .leftBracket) (hindex : ReadsExpression good ts (closing :: ts'))
    (hclosing : closing.kind = .rightBracket) :
    ReadsOperand (Formed fun shape => ∃ id l index, good index ∧
      shape = .subscript (.node id l (.var token.lexeme)) index) (token :: opening :: ts) ts' := by
  have hrule : Tables.standard.primary token.kind = some .identifier := by rw [hname]; rfl
  have hshorter := hindex.shorter
  rw [List.length_cons] at hshorter
  refine .of_add hrule (by rw [List.length_cons]; omega) fun s hs => ?_
  obtain ⟨index, s₁, hs₁, hgood, hrun⟩ :=
    hindex.run ((s.moved ts).added (.var token.lexeme) token.location) rfl
  refine ⟨.subscript (s.built (.var token.lexeme) token.location) index, opening.location,
    s₁.moved ts', rfl, ⟨_, _, index, hgood, rfl⟩, fun n hn t s' hadd => ?_⟩
  rw [List.length_cons] at hn
  exact (subscript_eq_ok hs hname hopening).mpr
    ⟨index, s₁, closing, ts', hrun n (by omega), hs₁, hclosing, hadd⟩

/-- A block may stand as an operand. -/
lemma ReadsBlock.operand (hblock : ReadsBlock good ts ts') (hopening : headKind ts = .leftBrace) :
    ReadsOperand good ts ts' := by
  cases ts with
  | nil => cases hopening
  | cons token ts =>
      have htoken : token.kind = .leftBrace := hopening
      have hrule : Tables.standard.primary token.kind = some .block := by rw [htoken]; rfl
      have hshorter := hblock.shorter
      rw [List.length_cons] at hshorter
      refine .of_primary hrule (by omega) fun s hs => ?_
      obtain ⟨t, s', hs', hgood, hrun⟩ := hblock.run s hs
      rw [List.length_cons] at hrun
      exact ⟨t, s', hs', hgood, fun n hn => hrun n (by omega)⟩

/-- A binding goes on to where its value ends, with a type exactly if a colon comes first. -/
lemma ReadsOperand.binding {name equal : Token} {stated : Option Ty} (hword : token.kind = .letWord)
    (hname : name.kind = .ident) (hstated : IsAnnotation ts stated (equal :: ts₁))
    (hequal : equal.kind = .equal) (hvalue : ReadsExpression good ts₁ ts') :
    ReadsOperand (Formed fun shape => ∃ e, good e ∧ shape = .binding name.lexeme stated e)
      (token :: name :: ts) ts' := by
  have hrule : Tables.standard.primary token.kind = some .binding := by rw [hword]; rfl
  have hshorter := hvalue.shorter
  have hlength := hstated.length_le
  rw [List.length_cons] at hlength
  refine .of_add hrule (by rw [List.length_cons]; omega) fun s hs => ?_
  obtain ⟨value, s₁, hs₁, hgood, hrun⟩ := hvalue.run (s.moved ts₁) rfl
  have hannotated := annotation_complete (s := s) hstated
    (by rw [State.kind_moved_cons, hequal]; decide)
  refine ⟨.binding name.lexeme stated value, token.location, s₁, hs₁, ⟨value, hgood, rfl⟩,
    fun n hn t s' hadd => ?_⟩
  rw [List.length_cons] at hn
  exact (binding_eq_ok hs hword).mpr ⟨name, ts, stated, s.moved (equal :: ts₁), equal, ts₁, value,
    s₁, rfl, hname, hannotated, rfl, hequal, hrun n (by omega), hadd⟩

lemma ReadsOperand.cond (hword : token.kind = .ifWord)
    (hcondition : ReadsExpression good ts ts₁) (hthen : ReadsBlock good' ts₁ ts')
    (hnext : headKind ts' ≠ .elseWord) :
    ReadsOperand (Formed fun shape => ∃ c b, good c ∧ good' b ∧ shape = .cond c b none)
      (token :: ts) ts' := by
  have hrule : Tables.standard.primary token.kind = some .cond := by rw [hword]; rfl
  have hshorter := hcondition.shorter
  have hshorter' := hthen.shorter
  refine .of_add hrule (by omega) fun s hs => ?_
  obtain ⟨condition, s₁, hs₁, hgood₁, hrun₁⟩ := hcondition.run (s.moved ts) rfl
  obtain ⟨thenBlock, s₂, hs₂, hgood₂, hrun₂⟩ := hthen.run s₁ hs₁
  rw [← State.kind_eq hs₂] at hnext
  refine ⟨.cond condition thenBlock none, token.location, s₂, hs₂,
    ⟨condition, thenBlock, hgood₁, hgood₂, rfl⟩, fun n hn t s' hadd => ?_⟩
  exact (cond_eq_ok hs hword).mpr ⟨condition, s₁, thenBlock, s₂, none, s₂, hrun₁ n (by omega),
    hrun₂ n (by omega), optionally_eq_ok.mpr (.inr ⟨hnext, rfl, rfl⟩), hadd⟩

lemma ReadsOperand.condElse {other : Token} {ts₂ : List Token} (hword : token.kind = .ifWord)
    (hcondition : ReadsExpression good ts ts₁) (hthen : ReadsBlock good' ts₁ (other :: ts₂))
    (hother : other.kind = .elseWord) (helse : ReadsBlock good'' ts₂ ts') :
    ReadsOperand (Formed fun shape => ∃ c b e, good c ∧ good' b ∧ good'' e ∧
      shape = .cond c b (some e)) (token :: ts) ts' := by
  have hrule : Tables.standard.primary token.kind = some .cond := by rw [hword]; rfl
  have hshorter₁ := hcondition.shorter
  have hshorter₂ := hthen.shorter
  have hshorter₃ := helse.shorter
  rw [List.length_cons] at hshorter₂
  refine .of_add hrule (by omega) fun s hs => ?_
  obtain ⟨condition, s₁, hs₁, hgood₁, hrun₁⟩ := hcondition.run (s.moved ts) rfl
  obtain ⟨thenBlock, s₂, hs₂, hgood₂, hrun₂⟩ := hthen.run s₁ hs₁
  obtain ⟨elseBlock, s₃, hs₃, hgood₃, hrun₃⟩ := helse.run (s₂.moved ts₂) rfl
  have hkind : s₂.kind = .elseWord := by rw [State.kind_of_rest hs₂, hother]
  refine ⟨.cond condition thenBlock (some elseBlock), token.location, s₃, hs₃,
    ⟨condition, thenBlock, elseBlock, hgood₁, hgood₂, hgood₃, rfl⟩, fun n hn t s' hadd => ?_⟩
  refine (cond_eq_ok hs hword).mpr ⟨condition, s₁, thenBlock, s₂, some elseBlock, s₃,
    hrun₁ n (by omega), hrun₂ n (by omega), ?_, hadd⟩
  refine optionally_eq_ok.mpr (.inl ⟨hkind, elseBlock, ?_, rfl⟩)
  rw [hs₂]
  exact hrun₃ n (by omega)

/-- A `return` takes the value that follows. -/
lemma ReadsOperand.valueReturn (hword : token.kind = .returnWord)
    (hsemicolon : headKind ts ≠ .semicolon) (hbrace : headKind ts ≠ .rightBrace)
    (hvalue : ReadsExpression good ts ts') :
    ReadsOperand (Formed fun shape => ∃ e, good e ∧ shape = .jump token.kind (some e))
      (token :: ts) ts' := by
  have hrule : Tables.standard.primary token.kind = some .jump := by rw [hword]; rfl
  refine .of_add hrule hvalue.shorter.le fun s hs => ?_
  obtain ⟨value, s₁, hs₁, hgood, hrun⟩ := hvalue.run (s.moved ts) rfl
  rw [← State.kind_eq (State.rest_moved s ts)] at hsemicolon hbrace
  refine ⟨.jump token.kind (some value), token.location, s₁, hs₁, ⟨value, hgood, rfl⟩,
    fun n hn t s' hadd => ?_⟩
  exact (valueReturn_eq_ok hs ⟨hword, hsemicolon, hbrace⟩).mpr
    ⟨value, s₁, hrun n (by omega), hadd⟩

/-! ### Lists and blocks -/

lemma ReadsArguments.last (h : ReadsExpression good ts ts') (hnext : headKind ts' = .rightParen) :
    ReadsArguments (fun es => ∃ e, good e ∧ es = [e]) ts ts' := by
  refine ⟨h.shorter, .of_succ (by omega) fun s hs => ?_⟩
  obtain ⟨argument, s₁, hs₁, hgood, hrun⟩ := h.run s hs
  refine ⟨[argument], s₁, hs₁, ⟨argument, hgood, rfl⟩, fun n hn => argumentsWithin_eq_ok.mpr ?_⟩
  exact ⟨argument, s₁, hrun n (by omega), .inr ⟨by rw [State.kind_eq hs₁, hnext], rfl, rfl⟩⟩

lemma ReadsArguments.more (h : ReadsExpression good ts (token :: ts₁))
    (htoken : token.kind = .comma)
    (hothers : ReadsArguments goods ts₁ ts') :
    ReadsArguments (fun es => ∃ e others, good e ∧ goods others ∧ es = e :: others) ts ts' := by
  have hshorter := h.shorter
  have hshorter' := hothers.shorter
  rw [List.length_cons] at hshorter
  refine ⟨by omega, .of_succ (by omega) fun s hs => ?_⟩
  obtain ⟨argument, s₁, hs₁, hgood₁, hrun₁⟩ := h.run s hs
  obtain ⟨others, s₂, hs₂, hgood₂, hrun₂⟩ := hothers.run (s₁.moved ts₁) rfl
  have hkind : s₁.kind = .comma := by rw [State.kind_of_rest hs₁, htoken]
  refine ⟨argument :: others, s₂, hs₂, ⟨argument, others, hgood₁, hgood₂, rfl⟩,
    fun n hn => argumentsWithin_eq_ok.mpr ?_⟩
  refine ⟨argument, s₁, hrun₁ n (by omega), .inl ⟨hkind, others, ?_, rfl⟩⟩
  rw [hs₁]
  exact hrun₂ n (by omega)

lemma ReadsBlock.braces {closing : Token} (hopening : token.kind = .leftBrace)
    (hnonempty : headKind ts ≠ .rightBrace) (h : ReadsStatements goods ts (closing :: ts'))
    (hclosing : closing.kind = .rightBrace) :
    ReadsBlock (Formed fun shape => ∃ es, goods es ∧ shape = .block es) (token :: ts) ts' := by
  have hshorter := h.shorter
  rw [List.length_cons] at hshorter
  refine ⟨by rw [List.length_cons]; omega,
    .of_succ (by rw [List.length_cons]; omega) fun s hs => ?_⟩
  obtain ⟨statements, s₁, hs₁, hgood, hrun⟩ := h.run (s.moved ts) rfl
  rw [← State.kind_eq (State.rest_moved s ts)] at hnonempty
  have hadd := add_run (.block statements) token.location (s₁.moved ts')
  refine ⟨(s₁.moved ts').built (.block statements) token.location,
    (s₁.moved ts').added (.block statements) token.location, rfl,
    ⟨_, _, _, rfl, statements, hgood, rfl⟩, fun n hn => blockWithin_eq_ok.mpr ?_⟩
  rw [List.length_cons] at hn
  exact ⟨token, ts, statements, s₁, closing, ts', hs, hopening, hnonempty, hrun n (by omega), hs₁,
    hclosing, hadd⟩

/-- Nothing is read before the brace that closes a block. -/
lemma ReadsStatements.nil (h : headKind ts = .rightBrace) : ReadsStatements (· = []) ts ts := by
  refine ⟨le_rfl, .of_succ (by omega) fun s hs => ?_⟩
  refine ⟨[], s, hs, rfl, fun n _ => statementsWithin_eq_ok.mpr ?_⟩
  exact .inl ⟨by rw [State.kind_eq hs, h], rfl, rfl⟩

/-- A statement is read up to where it ends, and then the others. -/
lemma ReadsStatements.cons {ts₂ : List Token} (hne : headKind ts ≠ .rightBrace)
    (h : ReadsExpression good ts ts₁) (hlength : ts₂.length ≤ ts₁.length)
    (hend : ∀ e s₁, good e → s₁.rest = ts₁ →
      ∃ s₂, s₂.rest = ts₂ ∧ statementEnd e s₁ = .ok () s₂)
    (hothers : ReadsStatements goods ts₂ ts') :
    ReadsStatements (fun es => ∃ e others, good e ∧ goods others ∧ es = e :: others) ts ts' := by
  have hshorter := h.shorter
  have hshorter' := hothers.shorter
  refine ⟨by omega, .of_succ (by omega) fun s hs => ?_⟩
  obtain ⟨statement, s₁, hs₁, hgood, hrun₁⟩ := h.run s hs
  obtain ⟨s₂, hs₂, hrun₂⟩ := hend statement s₁ hgood hs₁
  obtain ⟨others, s₃, hs₃, hgood₂, hrun₃⟩ := hothers.run s₂ hs₂
  rw [← State.kind_eq hs] at hne
  refine ⟨statement :: others, s₃, hs₃, ⟨statement, others, hgood, hgood₂, rfl⟩,
    fun n hn => statementsWithin_eq_ok.mpr ?_⟩
  exact .inr
    ⟨hne, statement, s₁, (), s₂, others, hrun₁ n (by omega), hrun₂, hrun₃ n (by omega), rfl⟩

lemma ReadsStatements.last (hne : headKind ts ≠ .rightBrace) (h : ReadsExpression good ts ts')
    (hnext : headKind ts' = .rightBrace) :
    ReadsStatements (fun es => ∃ e others, good e ∧ others = [] ∧ es = e :: others) ts ts' := by
  refine .cons hne h le_rfl (fun e s₁ _ hs₁ => ⟨s₁, hs₁, ?_⟩) (.nil hnext)
  exact statementEnd_eq_ok.mpr (.inr (.inl ⟨by rw [State.kind_eq hs₁, hnext], rfl⟩))

lemma ReadsStatements.separated (hne : headKind ts ≠ .rightBrace)
    (h : ReadsExpression good ts (token :: ts₁)) (htoken : token.kind = .semicolon)
    (hothers : ReadsStatements goods ts₁ ts') :
    ReadsStatements (fun es => ∃ e others, good e ∧ goods others ∧ es = e :: others) ts ts' := by
  refine .cons hne h (by simp) (fun e s₁ _ hs₁ => ⟨s₁.moved ts₁, rfl, ?_⟩) hothers
  exact statementEnd_eq_ok.mpr (.inl ⟨by rw [State.kind_of_rest hs₁, htoken], by rw [hs₁]; rfl⟩)

lemma ReadsStatements.adjacent (hne : headKind ts ≠ .rightBrace)
    (h : ReadsExpression (fun t => t.endsWithBlock) ts ts₁) (hsemicolon : headKind ts₁ ≠ .semicolon)
    (hbrace : headKind ts₁ ≠ .rightBrace) (hothers : ReadsStatements goods ts₁ ts') :
    ReadsStatements (fun es => ∃ e others, e.endsWithBlock ∧ goods others ∧ es = e :: others)
      ts ts' := by
  refine .cons hne h le_rfl (fun e s₁ he hs₁ => ⟨s₁, hs₁, ?_⟩) hothers
  rw [← State.kind_eq hs₁] at hsemicolon hbrace
  exact statementEnd_eq_ok.mpr (.inr (.inr ⟨hsemicolon, hbrace, he, rfl⟩))

/-! ### Operators -/

/-- The kinds of tokens that can come after an expression, apart from the end of a program. -/
def followingKinds : List Token.Kind :=
  [.rightParen, .rightBracket, .comma, .semicolon, .rightBrace, .leftBrace]

/-- What can come after an operand in an expression that ends at the tokens `e`: operators of the
layers with operands as the parser reads them. -/
inductive Continuation (e : List Token) : List Token → Prop
  | stop (h : headKind e ∈ followingKinds) : Continuation e e
  | operator {layer : ℕ} {token : Token} {ts ts₁ : List Token}
      (hoperator : token.kind ∈ layerOperators (layer + 1)) (hoperand : ReadsOperand AnyTree ts ts₁)
      (others : Continuation e ts₁) : Continuation e (token :: ts)

variable {e : List Token}

/-- Where an expression ends, something follows that is no operator. -/
lemma Continuation.following (h : Continuation e ts) : headKind e ∈ followingKinds := by
  induction h with
  | stop h => exact h
  | operator _ _ _ ih => exact ih

/-- A continuation begins with an operator or with what ends an expression. -/
lemma Continuation.headKind_ne (h : Continuation e ts) {k : Token.Kind}
    (hfollowing : k ∉ followingKinds)
    (hoperator : Tables.standard.operator k = none) : headKind ts ≠ k := by
  cases h with
  | stop h =>
      rintro rfl
      exact hfollowing h
  | operator h _ _ =>
      rintro rfl
      obtain ⟨power, hrule, -⟩ := operator_of_layer h
      simp [headKind, hrule] at hoperator

lemma level_of_following {k : Token.Kind} (h : k ∈ followingKinds) : level k < 0 := by
  simp only [followingKinds, List.mem_cons, List.not_mem_nil, or_false] at h
  rcases h with rfl | rfl | rfl | rfl | rfl | rfl <;> decide

/-- Operators that are all weaker than `least` are left to be read. -/
lemma ReadsClimb.stop {least : ℤ} (h : level (headKind ts) < least) : ReadsClimb least ts ts := by
  refine ⟨le_rfl, fun left => .of_succ (by omega) fun s hs => ?_⟩
  rw [← State.kind_eq hs] at h
  exact ⟨left, s, hs, trivial, fun n _ => climbWithin_stop h⟩

/-- The right operand of an operator takes the operators after it that are stronger. -/
lemma exists_right {power : Power} (first : Tree) {s₁ : State} (hs₁ : s₁.rest = ts)
    (hstronger : power.level < level (headKind ts) → ReadsClimb (power.level + 1) ts ts₁)
    (hsame : ¬ power.level < level (headKind ts) → ts₁ = ts) :
    ∃ right s₂, s₂.rest = ts₁ ∧ ∀ n, 8 * ts.length + 1 ≤ n →
      (if power.level < level s₁.kind then
        climbWithin .standard n (power.level + 1) first else pure first) s₁ = .ok right s₂ := by
  rw [State.kind_eq hs₁]
  split_ifs with h
  · obtain ⟨right, s₂, hs₂, -, hrun⟩ := (hstronger h).run first s₁ hs₁
    exact ⟨right, s₂, hs₂, hrun⟩
  · exact ⟨first, s₁, by rw [hs₁, hsame h], fun _ _ => rfl⟩

/-- An operator that is not too weak is read with its right operand, and then those after it. -/
lemma ReadsClimb.operator {least : ℤ} {power : Power} {ts₂ ts₃ : List Token}
    (hrule : Tables.standard.operator token.kind = some (power, .binary))
    (hle : least ≤ power.level) (hoperand : ReadsOperand good ts ts₂)
    (hlength : ts₃.length ≤ ts₂.length)
    (hstronger : power.level < level (headKind ts₂) → ReadsClimb (power.level + 1) ts₂ ts₃)
    (hsame : ¬ power.level < level (headKind ts₂) → ts₃ = ts₂)
    (hothers : ReadsClimb least ts₃ ts') :
    ReadsClimb least (token :: ts) ts' := by
  have hshorter := hoperand.shorter
  have hshorter' := hothers.shorter
  refine ⟨by rw [List.length_cons]; omega, fun left => .of_succ (by omega) fun s hs => ?_⟩
  obtain ⟨first, s₁, hs₁, -, hrun₁⟩ := hoperand.run (s.moved ts) rfl
  obtain ⟨right, s₂, hs₂, hrun₂⟩ := exists_right first hs₁ hstronger hsame
  obtain ⟨t, s', hs', -, hrun₃⟩ := hothers.run (s₂.built (.binary token.kind left right)
    token.location) (s₂.added (.binary token.kind left right) token.location) hs₂
  refine ⟨t, s', hs', trivial, fun n hn => ?_⟩
  rw [List.length_cons] at hn
  exact (climbWithin_operator_eq_ok hs hrule hle).mpr ⟨first, s₁, right, s₂, _, _,
    hrun₁ n (by omega), hrun₂ n (by omega), join_binary ▸ add_run _ _ _,
    hrun₃ n (by omega)⟩

/-- **Operators are read as far as they are strong enough**, and all of them are if any operator of
the layers is. -/
lemma Continuation.climb {least : ℤ} (hleast : 0 ≤ least) (h : Continuation e ts) :
    ∃ ts₁, ReadsClimb least ts ts₁ ∧ Continuation e ts₁ ∧ (least ≤ 2 → ts₁ = e) := by
  induction hn : ts.length using Nat.strong_induction_on generalizing ts least with
  | _ n ih =>
      cases h with
      | stop h =>
          have hlevel := level_of_following h
          exact ⟨e, .stop (by omega), .stop h, fun _ => rfl⟩
      | @operator layer token ts ts₂ hoperator hoperand others =>
          obtain ⟨power, hrule, hpower⟩ := operator_of_layer hoperator
          have hlevel : level token.kind = power.level := level_of_operator hrule
          by_cases hweak : power.level < least
          · exact ⟨token :: ts, .stop (by rw [headKind, hlevel]; exact hweak),
              .operator hoperator hoperand others, fun h => by omega⟩
          · have hshorter := hoperand.shorter
            rw [List.length_cons] at hn
            obtain ⟨ts₃, hlength, hstronger, hsame, hothers⟩ : ∃ ts₃ : List Token,
                ts₃.length ≤ ts₂.length ∧
                (power.level < level (headKind ts₂) → ReadsClimb (power.level + 1) ts₂ ts₃) ∧
                (¬ power.level < level (headKind ts₂) → ts₃ = ts₂) ∧ Continuation e ts₃ := by
              by_cases hnext : power.level < level (headKind ts₂)
              · obtain ⟨ts₃, hclimb, hothers, -⟩ :=
                  ih ts₂.length (by omega) (by omega : 0 ≤ power.level + 1) others rfl
                exact ⟨ts₃, hclimb.shorter, fun _ => hclimb, fun h => absurd hnext h, hothers⟩
              · exact ⟨ts₂, le_rfl, fun h => absurd h hnext, fun _ => rfl, others⟩
            obtain ⟨ts₁, hclimb, hrest, hall⟩ := ih ts₃.length (by omega) hleast hothers rfl
            exact ⟨ts₁, .operator hrule (by omega) hoperand hlength hstronger hsame hclimb, hrest,
              hall⟩

/-! ### Expressions -/

/-- An operand that no operator follows is an expression. -/
lemma ReadsExpression.of_operand (h : ReadsOperand good ts ts') (hstop : level (headKind ts') < 0) :
    ReadsExpression good ts ts' := by
  have hshorter := h.shorter
  refine ⟨h.shorter, .of_succ (by omega) fun s hs => ?_⟩
  obtain ⟨left, s₁, hs₁, hgood, hrun⟩ := h.run s hs
  rw [← State.kind_eq hs₁] at hstop
  refine ⟨left, s₁, hs₁, hgood, fun n hn => expressionWithin_eq_ok.mpr ?_⟩
  obtain ⟨m, rfl⟩ : ∃ m, n = m + 1 := Nat.exists_eq_succ_of_ne_zero (by omega)
  exact ⟨left, s₁, hrun _ (by omega), climbWithin_stop hstop⟩

/-- An operand and all the operators after it are an expression. -/
lemma ReadsExpression.of_continuation (h : ReadsOperand good ts ts₁) (hc : Continuation e ts₁) :
    ReadsExpression AnyTree ts e := by
  obtain ⟨_, hclimb, -, hall⟩ := hc.climb le_rfl
  rw [hall (by decide)] at hclimb
  have hshorter := h.shorter
  have hshorter' := hclimb.shorter
  refine ⟨by omega, .of_succ (by omega) fun s hs => ?_⟩
  obtain ⟨left, s₁, hs₁, -, hrun₁⟩ := h.run s hs
  obtain ⟨t, s', hs', -, hrun₂⟩ := hclimb.run left s₁ hs₁
  refine ⟨t, s', hs', trivial, fun n hn => expressionWithin_eq_ok.mpr ?_⟩
  exact ⟨left, s₁, hrun₁ n (by omega), hrun₂ n (by omega)⟩

/-- A name and a value are joined by an assignment. -/
lemma exists_join {left : Tree} (right : Tree) (s : State) (hname : left.name?.isSome)
    (htoken : token.kind = .equal ∨ token.kind = .colonEqual) :
    ∃ joined s', s'.rest = s.rest ∧ join .assignment left token right s = .ok joined s' := by
  obtain ⟨name, hname⟩ := Option.isSome_iff_exists.mp hname
  rcases htoken with hequal | hcolon
  · exact ⟨_, s.added (.binary .equal left right) token.location, rfl, join_equal hname hequal⟩
  · exact ⟨_, s.added (.binding name none right) left.location, rfl, join_colonEqual hname hcolon⟩

/-- What follows an assignment sign is read as its right operand. -/
lemma ReadsExpression.assignment {ts₂ : List Token}
    (htarget : ReadsOperand (fun t => t.name?.isSome) ts (token :: ts₁))
    (htoken : token.kind = .equal ∨ token.kind = .colonEqual) (hoperand : ReadsOperand good ts₁ ts₂)
    (hc : Continuation e ts₂) : ReadsExpression AnyTree ts e := by
  have hrule : Tables.standard.operator token.kind = some (.assignment, .assignment) := by
    rcases htoken with h | h <;> rw [h] <;> rfl
  obtain ⟨_, hclimb, -, hall⟩ := hc.climb (by decide : (0 : ℤ) ≤ Power.assignment.level + 1)
  rw [hall le_rfl] at hclimb
  have hsame : ¬ Power.assignment.level < level (headKind ts₂) → e = ts₂ := by
    intro hweak
    cases hc with
    | stop => rfl
    | @operator layer token ts ts₁ hoperator _ _ =>
        obtain ⟨power, hpower, hlevel⟩ := operator_of_layer hoperator
        rw [headKind, level_of_operator hpower] at hweak
        exact absurd hweak (by simp only [Power.level] at hlevel ⊢; omega)
  have hshorter₁ := htarget.shorter
  have hshorter₂ := hoperand.shorter
  have hshorter₃ := hclimb.shorter
  have hstop := level_of_following hc.following
  rw [List.length_cons] at hshorter₁
  refine ⟨by omega, .of_succ (by omega) fun s hs => ?_⟩
  obtain ⟨left, s₁, hs₁, hname, hrun₁⟩ := htarget.run s hs
  obtain ⟨first, s₂, hs₂, -, hrun₂⟩ := hoperand.run (s₁.moved ts₁) rfl
  obtain ⟨right, s₃, hs₃, hrun₃⟩ := exists_right first hs₂ (fun _ => hclimb) hsame
  obtain ⟨joined, s₄, hs₄, hjoin⟩ := exists_join right s₃ hname htoken
  rw [← State.kind_eq (hs₄.trans hs₃)] at hstop
  refine ⟨joined, s₄, hs₄.trans hs₃, trivial, fun n hn => expressionWithin_eq_ok.mpr ?_⟩
  obtain ⟨m, rfl⟩ : ∃ m, n = m + 2 := ⟨n - 2, by omega⟩
  refine ⟨left, s₁, hrun₁ _ (by omega), (climbWithin_operator_eq_ok hs₁ hrule (by decide)).mpr ?_⟩
  exact ⟨first, s₂, right, s₃, joined, s₄, hrun₂ _ (by omega), hrun₃ _ (by omega), hjoin,
    climbWithin_stop hstop⟩

end Fern.Parsing
