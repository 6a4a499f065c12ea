import Mathlib.Tactic
import Fern.Proofs.Parsing.Reading

/-!
Every expression of the grammar is read.

The parser need not follow a given derivation: a value takes the operators after it that the
derivation may give to the whole, and a statement that begins with a minus sign may be read as the
right operand of a statement that ends with a block. Both are answered by what is proved of a chain:
whatever continuation follows it, some operand is read from its beginning, and a continuation
follows that.

* `begins_of_isExpression`: an expression begins with a token that can begin one.
* `not_minus_of_endsWithBlock`: an expression that ends with a block does not begin with a minus
  sign.
* `ExpressionComplete`, `ChainComplete`, `StatementsComplete`: what the induction proves.
* `expression_complete` and its companions: it holds of every derivation.
-/

namespace Fern.Parsing

variable {ts ts' ts₁ e : List Token} {t : Tree} {es : List Tree} {layer : ℕ}

/-! ### First tokens -/

/-- Whether an expression can begin with the first token. -/
def Begins (ts : List Token) : Prop := (Tables.standard.primary (headKind ts)).isSome

/-- What begins an expression ends none. -/
lemma Begins.ne (h : Begins ts) {k : Token.Kind} (hk : Tables.standard.primary k = none) :
    headKind ts ≠ k := by
  rintro rfl
  simp [Begins, hk] at h

/-- Of the tokens that can begin an expression only the minus sign is an operator as well. -/
lemma Begins.level_neg (h : Begins ts) (hminus : headKind ts ≠ .minus) :
    level (headKind ts) < 0 := by
  unfold Begins at h
  generalize headKind ts = k at h hminus
  cases k <;> first | decide | simp [Tables.standard] at h hminus

lemma begins_of_isTarget (h : IsTarget ts t ts') : Begins ts := by
  cases h with
  | name hname => simp [Begins, headKind, hname, Tables.standard]
  | parentheses hopening _ _ => simp [Begins, headKind, hopening, Tables.standard]

lemma begins_of_isOperand (h : IsOperand ts t ts') : Begins ts := by
  cases h with
  | unary h _ => rcases h with h | h <;> simp [Begins, headKind, h, Tables.standard]
  | number h => rcases h with h | h <;> simp [Begins, headKind, h, Tables.standard]
  | boolean h => rcases h with h | h <;> simp [Begins, headKind, h, Tables.standard]
  | loopControl h => rcases h with h | h <;> simp [Begins, headKind, h, Tables.standard]
  | block h =>
      cases h with
      | braces hopening _ _ => simp [Begins, headKind, hopening, Tables.standard]
  | _ => simp [Begins, headKind, *, Tables.standard]

lemma begins_of_isChain : ∀ {layer ts t ts'}, IsChain layer ts t ts' → Begins ts
  | _, _, _, _, .operand h => begins_of_isOperand h
  | _, _, _, _, .lower h => begins_of_isChain h
  | _, _, _, _, .join h _ _ => begins_of_isChain h

/-- An expression begins with a token that can begin one. -/
lemma begins_of_isExpression (h : IsExpression ts t ts') : Begins ts := by
  cases h with
  | chain h => exact begins_of_isChain h
  | assignment htarget _ _ => exact begins_of_isTarget htarget
  | definition htarget _ _ => exact begins_of_isTarget htarget

lemma begins_of_areStatements (h : AreStatements ts es ts') : Begins ts := by
  cases h with
  | last h => exact begins_of_isExpression h
  | closed h _ => exact begins_of_isExpression h
  | separated h _ _ => exact begins_of_isExpression h
  | adjacent h _ _ => exact begins_of_isExpression h

lemma begins_of_areArguments (h : AreArguments ts es ts') : Begins ts := by
  cases h with
  | last h => exact begins_of_isExpression h
  | more h _ _ => exact begins_of_isExpression h

lemma not_minus_of_isTarget (h : IsTarget ts t ts') : headKind ts ≠ .minus := by
  cases h with
  | name hname => simp [headKind, hname]
  | parentheses hopening _ _ => simp [headKind, hopening]

lemma headKind_of_isBlock (h : IsBlock ts t ts') : headKind ts = .leftBrace := by
  cases h with
  | braces hopening _ _ => exact hopening

/-- Only a sign begins with a minus sign. -/
lemma not_endsWithBlock_of_isOperand (h : IsOperand ts t ts') (hminus : headKind ts = .minus) :
    t.endsWithBlock = false := by
  cases h with
  | unary => rfl
  | number h => rcases h with h | h <;> simp [headKind, h] at hminus
  | boolean h => rcases h with h | h <;> simp [headKind, h] at hminus
  | loopControl h => rcases h with h | h <;> simp [headKind, h] at hminus
  | block h =>
      cases h with
      | braces hopening _ _ => simp [headKind, hopening] at hminus
  | _ => simp [headKind, *] at hminus

lemma not_endsWithBlock_of_isChain : ∀ {layer ts t ts'}, IsChain layer ts t ts' →
    headKind ts = .minus → t.endsWithBlock = false
  | _, _, _, _, .operand h, hminus => not_endsWithBlock_of_isOperand h hminus
  | _, _, _, _, .lower h, hminus => not_endsWithBlock_of_isChain h hminus
  | _, _, _, _, .join _ _ _, _ => rfl

/-- An expression that ends with a block does not begin with a minus sign. -/
lemma not_minus_of_endsWithBlock (h : IsExpression ts t ts') (hblock : t.endsWithBlock) :
    headKind ts ≠ .minus := by
  intro hminus
  cases h with
  | chain h => simp [not_endsWithBlock_of_isChain h hminus] at hblock
  | assignment => cases hblock
  | definition => cases hblock

/-! ### Names -/

/-- What can be assigned to is read as a name before an assignment sign. -/
lemma target_complete (h : IsTarget ts t ts') (hstop : headKind ts' = .equal ∨
    headKind ts' = .colonEqual ∨ headKind ts' = .rightParen) :
    ReadsOperand (fun t => t.name?.isSome) ts ts' := by
  induction h with
  | @name name ts id hname =>
      have hparen : headKind ts ≠ .leftParen := by rcases hstop with h | h | h <;> simp [h]
      have hbracket : headKind ts ≠ .leftBracket := by rcases hstop with h | h | h <;> simp [h]
      refine (ReadsOperand.var hname hparen hbracket).weaken ?_
      rintro _ ⟨id, l, _, rfl, rfl⟩
      rfl
  | @parentheses opening ts e closing ts' hopening _ hclosing ih =>
      have hinner := ih (.inr (.inr hclosing))
      have hlevel : level (headKind (closing :: ts')) < 0 := by
        rw [headKind, hclosing]
        decide
      exact .grouping hopening (.of_operand hinner hlevel) hclosing

/-! ### The induction -/

/-- What is proved of an expression from `ts` to `ts'` with the tree `t`: with any continuation
after it, it is read to the end of that; if it begins with a minus sign, this itself is a
continuation; and if it ends with a block and no operator or `else` follows, it is read as something
that does. -/
structure ExpressionComplete (ts : List Token) (t : Tree) (ts' : List Token) : Prop where
  reads : ∀ {e}, Continuation e ts' → ReadsExpression AnyTree ts e
  continues : ∀ {e}, Continuation e ts' → headKind ts = .minus → Continuation e ts
  endsWithBlock : t.endsWithBlock → level (headKind ts') < 0 → headKind ts' ≠ .elseWord →
    ReadsExpression (fun t => t.endsWithBlock) ts ts'

/-- What is proved of operands and of what operators make of them: with any continuation after it,
an operand is read from its beginning, or after a minus sign there, and a continuation follows. -/
structure ChainComplete (ts : List Token) (t : Tree) (ts' : List Token) : Prop where
  reads : ∀ {e}, Continuation e ts' → ∃ ts₁, ReadsOperand AnyTree ts ts₁ ∧ Continuation e ts₁ ∧
    ∀ sign us, ts = sign :: us → sign.kind = .minus → ReadsOperand AnyTree us ts₁
  endsWithBlock : t.endsWithBlock → headKind ts' ≠ .elseWord →
    ReadsOperand (fun t => t.endsWithBlock) ts ts'

/-- What is proved of statements: they are read, and if they begin with a minus sign, they are read
after an expression too that is read up to any continuation of theirs. -/
structure StatementsComplete (ts ts' : List Token) : Prop where
  reads : ReadsStatements AnyTrees ts ts'
  continues : headKind ts = .minus → ∀ us, headKind us ≠ .rightBrace →
    (∀ e, Continuation e ts → ReadsExpression AnyTree us e) → ReadsStatements AnyTrees us ts'

/-- An operand that is always read to its own end and does not begin with a minus sign. -/
lemma ChainComplete.of_reads {good : Tree → Prop} (h : ReadsOperand good ts ts')
    (hminus : headKind ts ≠ .minus) (hblock : t.endsWithBlock = false) :
    ChainComplete ts t ts' := by
  refine ⟨fun hc => ⟨ts', h.any, hc, ?_⟩, fun h => by simp [hblock] at h⟩
  rintro sign us rfl hsign
  exact absurd hsign hminus

/-- An operand that ends with a block and is read to its own end unless `else` follows. -/
lemma ChainComplete.of_block (hminus : headKind ts ≠ .minus)
    (h : headKind ts' ≠ .elseWord → ReadsOperand (fun t => t.endsWithBlock) ts ts') :
    ChainComplete ts t ts' := by
  refine ⟨fun hc => ⟨ts', (h (hc.headKind_ne (by decide) rfl)).any, hc, ?_⟩, fun _ => h⟩
  rintro sign us rfl hsign
  exact absurd hsign hminus

/-- An operand whose last part is an expression: the expression is read up to where its continuation
ends. -/
lemma ChainComplete.of_value (hminus : headKind ts ≠ .minus) (hblock : t.endsWithBlock = false)
    (h : ∀ {e}, Continuation e ts' → ReadsOperand AnyTree ts e) : ChainComplete ts t ts' := by
  refine ⟨fun hc => ⟨_, h hc, .stop hc.following, ?_⟩, fun h => by simp [hblock] at h⟩
  rintro sign us rfl hsign
  exact absurd hsign hminus

/-- What ends an expression is a continuation without operators. -/
lemma Continuation.of_kind {token : Token} {k : Token.Kind} (h : token.kind = k)
    (hk : k ∈ followingKinds) : Continuation (token :: ts) (token :: ts) :=
  .stop (by rw [headKind, h]; exact hk)

lemma Continuation.of_headKind {k : Token.Kind} (h : headKind ts = k) (hk : k ∈ followingKinds) :
    Continuation ts ts :=
  .stop (by rw [h]; exact hk)

/-- A condition ends before the brace of its block. -/
lemma continuation_of_isBlock (h : IsBlock ts t ts') : Continuation ts ts := by
  cases h with
  | braces hopening _ _ => exact .of_kind hopening (by decide)

/-- A chain may stand as an expression. -/
lemma ChainComplete.expression (ih : ChainComplete ts t ts') : ExpressionComplete ts t ts' := by
  refine ⟨fun hc => ?_, fun hc hminus => ?_, fun hblock hlevel helse => ?_⟩
  · obtain ⟨ts₁, hoperand, hcontinuation, -⟩ := ih.reads hc
    exact .of_continuation hoperand hcontinuation
  · obtain ⟨ts₁, hoperand, hcontinuation, hsign⟩ := ih.reads hc
    cases ts with
    | nil => cases hminus
    | cons sign us =>
        have hkind : sign.kind = .minus := hminus
        have hlayer : sign.kind ∈ layerOperators (1 + 1) := by
          rw [hkind]
          decide
        exact .operator hlayer (hsign sign us rfl hkind) hcontinuation
  · exact .of_operand (ih.endsWithBlock hblock helse) hlevel

/-- An assignment of a chain to a name is an expression. -/
lemma ChainComplete.assignment {target : Tree} {operator : Token} (ih : ChainComplete ts₁ t ts')
    (htarget : IsTarget ts target (operator :: ts₁))
    (hoperator : operator.kind = .equal ∨ operator.kind = .colonEqual) {whole : Tree}
    (hblock : whole.endsWithBlock = false) : ExpressionComplete ts whole ts' := by
  have hread : ReadsOperand (fun t => t.name?.isSome) ts (operator :: ts₁) :=
    target_complete htarget (hoperator.imp_right .inl)
  refine ⟨fun hc => ?_, fun hc hminus => ?_, fun h => by simp [hblock] at h⟩
  · obtain ⟨ts₂, hoperand, hcontinuation, -⟩ := ih.reads hc
    exact .assignment hread hoperator hoperand hcontinuation
  · exact absurd hminus (not_minus_of_isTarget htarget)

/-- The left operand of an operator is followed by it and by what its right operand is read with. -/
lemma ChainComplete.join {left right whole : Tree} {operator : Token} {layer : ℕ}
    (hleft : ChainComplete ts left (operator :: ts₁))
    (hoperator : operator.kind ∈ layerOperators (layer + 1)) (hright : ChainComplete ts₁ right ts')
    (hblock : whole.endsWithBlock = false) : ChainComplete ts whole ts' := by
  refine ⟨fun hc => ?_, fun h => by simp [hblock] at h⟩
  obtain ⟨ts₂, hoperand, hcontinuation, -⟩ := hright.reads hc
  exact hleft.reads (.operator hoperator hoperand hcontinuation)

/-- After a sign its operand is read as far as without it. -/
lemma ChainComplete.unary {operator : Token} {whole : Tree} (ih : ChainComplete ts t ts')
    (hoperator : operator.kind = .minus ∨ operator.kind = .bang)
    (hblock : whole.endsWithBlock = false) : ChainComplete (operator :: ts) whole ts' := by
  refine ⟨fun hc => ?_, fun h => by simp [hblock] at h⟩
  obtain ⟨ts₁, hoperand, hcontinuation, -⟩ := ih.reads hc
  refine ⟨ts₁, (ReadsOperand.unary hoperator hoperand).any, hcontinuation, ?_⟩
  rintro sign us heq -
  obtain ⟨-, rfl⟩ := List.cons.inj heq
  exact hoperand

/-- A name that is followed by a continuation is neither called nor indexed. -/
lemma ChainComplete.var {name : Token} (hname : name.kind = .ident)
    (hblock : t.endsWithBlock = false) : ChainComplete (name :: ts) t ts := by
  refine ⟨fun hc => ⟨ts, ?_, hc, ?_⟩, fun h => by simp [hblock] at h⟩
  · exact (ReadsOperand.var hname (hc.headKind_ne (by decide) rfl)
      (hc.headKind_ne (by decide) rfl)).any
  · rintro sign us heq hsign
    obtain ⟨rfl, -⟩ := List.cons.inj heq
    rw [hname] at hsign
    cases hsign

/-- Parentheses end what is in them. -/
lemma ExpressionComplete.grouping {opening closing : Token}
    (ih : ExpressionComplete ts t (closing :: ts')) (hopening : opening.kind = .leftParen)
    (hclosing : closing.kind = .rightParen) : ChainComplete (opening :: ts) t ts' := by
  have hread := ih.reads (.of_kind hclosing (by decide))
  refine ⟨fun hc => ⟨ts', .grouping hopening hread hclosing, hc, ?_⟩, fun hblock _ => ?_⟩
  · rintro sign us heq hsign
    obtain ⟨rfl, -⟩ := List.cons.inj heq
    rw [hopening] at hsign
    cases hsign
  · refine .grouping hopening (ih.endsWithBlock hblock ?_ ?_) hclosing
    · rw [headKind, hclosing]
      decide
    · simp [headKind, hclosing]

/-- The last of the statements, after which a semicolon may stand. -/
lemma ExpressionComplete.last {us : List Token} (ih : ExpressionComplete ts t us)
    (hne : headKind ts ≠ .rightBrace) (hc : Continuation us us)
    (hend : ∀ {vs}, headKind vs ≠ .rightBrace → ReadsExpression AnyTree vs us →
      ReadsStatements AnyTrees vs ts') : StatementsComplete ts ts' :=
  ⟨hend hne (ih.reads hc), fun hminus _ hvs hread => hend hvs (hread _ (ih.continues hc hminus))⟩

/-- Between a statement that ends with a block and one that begins with a minus sign the parser sees
an operator. -/
lemma StatementsComplete.adjacent (ih' : StatementsComplete ts₁ ts')
    (ih : ExpressionComplete ts t ts₁) (hne : headKind ts ≠ .rightBrace) (hbegins : Begins ts₁)
    (hblock : t.endsWithBlock) (hminus : headKind ts ≠ .minus) : StatementsComplete ts ts' := by
  refine ⟨?_, fun h => absurd h hminus⟩
  by_cases hsign : headKind ts₁ = .minus
  · exact ih'.continues hsign ts hne fun e hc => ih.reads hc
  · have hlevel : level (headKind ts₁) < 0 := hbegins.level_neg hsign
    exact (ReadsStatements.adjacent hne (ih.endsWithBlock hblock hlevel (hbegins.ne rfl))
      (hbegins.ne rfl) (hbegins.ne rfl) ih'.reads).any

/-- A block is read to its own end. -/
lemma ReadsBlock.chain (hblock : ReadsBlock (fun t => t.endsWithBlock) ts ts')
    (hopening : headKind ts = .leftBrace) : ChainComplete ts t ts' :=
  .of_block (by simp [hopening]) fun _ => hblock.operand hopening

lemma ChainComplete.of_loopControl {word : Token}
    (hword : word.kind = .breakWord ∨ word.kind = .continueWord)
    (hblock : t.endsWithBlock = false) :
    ChainComplete (word :: ts) t ts := by
  refine .of_reads (ReadsOperand.jump (.inr hword) ?_) ?_ hblock
  · rcases hword with h | h <;> simp [h]
  · rcases hword with h | h <;> simp [headKind, h]

/-! ### Every derivation -/

section Forms

variable {good good' good'' : Tree → Prop} {goods : List Tree → Prop}

lemma endsWithBlock_of_block (t : Tree)
    (h : Formed (fun shape => ∃ es, goods es ∧ shape = .block es) t) : t.endsWithBlock := by
  obtain ⟨id, l, _, rfl, es, -, rfl⟩ := h
  rfl

lemma endsWithBlock_of_cond (t : Tree)
    (h : Formed (fun shape => ∃ c b, good c ∧ good' b ∧ shape = .cond c b none) t) :
    t.endsWithBlock := by
  obtain ⟨id, l, _, rfl, c, b, -, -, rfl⟩ := h
  rfl

lemma endsWithBlock_of_condElse (t : Tree)
    (h : Formed (fun shape => ∃ c b e, good c ∧ good' b ∧ good'' e ∧
      shape = .cond c b (some e)) t) : t.endsWithBlock := by
  obtain ⟨id, l, _, rfl, c, b, e, -, -, -, rfl⟩ := h
  rfl

end Forms

mutual

/-- **Completeness of the parts.** Every expression of the grammar is read. -/
lemma expression_complete : ∀ {ts t ts'}, IsExpression ts t ts' → ExpressionComplete ts t ts'
  | _, _, _, .chain h => (chain_complete h).expression
  | _, _, _, .assignment htarget hoperator hvalue =>
      (chain_complete hvalue).assignment htarget (.inl hoperator) rfl
  | _, _, _, .definition htarget hoperator hvalue =>
      (chain_complete hvalue).assignment htarget (.inr hoperator) rfl

lemma chain_complete : ∀ {layer ts t ts'}, IsChain layer ts t ts' → ChainComplete ts t ts'
  | _, _, _, _, .operand h => operand_complete h
  | _, _, _, _, .lower h => chain_complete h
  | _, _, _, _, .join hleft hoperator hright =>
      (chain_complete hleft).join hoperator (chain_complete hright) rfl

lemma operand_complete : ∀ {ts t ts'}, IsOperand ts t ts' → ChainComplete ts t ts'
  | _, _, _, .unary hoperator h => (operand_complete h).unary hoperator rfl
  | _, _, _, .number h => .of_reads (.number h) (by rcases h with h | h <;> simp [headKind, h]) rfl
  | _, _, _, .string h => .of_reads (.string h) (by simp [headKind, h]) rfl
  | _, _, _, .char h => .of_reads (.char h) (by simp [headKind, h]) rfl
  | _, _, _, .boolean h =>
      .of_reads (.boolean h) (by rcases h with h | h <;> simp [headKind, h]) rfl
  | _, _, _, .var hname => .var hname rfl
  | _, _, _, .emptyCall hname hopening hclosing =>
      .of_reads (.emptyCall hname hopening hclosing) (by simp [headKind, hname]) rfl
  | _, _, _, .call hname hopening h hclosing =>
      .of_reads (.call hname hopening ((begins_of_areArguments h).ne rfl)
        (arguments_complete h hclosing) hclosing) (by simp [headKind, hname]) rfl
  | _, _, _, .subscript hname hopening h hclosing =>
      .of_reads (.subscript hname hopening
        ((expression_complete h).reads (.of_kind hclosing (by decide))) hclosing)
        (by simp [headKind, hname]) rfl
  | _, _, _, .grouping hopening h hclosing => (expression_complete h).grouping hopening hclosing
  | _, _, _, .block h => (block_complete h).chain (headKind_of_isBlock h)
  | _, _, _, .binding hword hname hstated hequal hvalue =>
      .of_value (by simp [headKind, hword]) rfl fun hc =>
        (ReadsOperand.binding hword hname hstated hequal
          ((expression_complete hvalue).reads hc)).any
  | _, _, _, .cond hword hcondition hthen =>
      .of_block (by simp [headKind, hword]) fun helse =>
        (ReadsOperand.cond hword ((expression_complete hcondition).reads
          (continuation_of_isBlock hthen)) (block_complete hthen) helse).weaken
          endsWithBlock_of_cond
  | _, _, _, .condElse hword hcondition hthen hother helse =>
      .of_block (by simp [headKind, hword]) fun _ =>
        (ReadsOperand.condElse hword ((expression_complete hcondition).reads
          (continuation_of_isBlock hthen)) (block_complete hthen) hother
          (block_complete helse)).weaken endsWithBlock_of_condElse
  | _, _, _, .valueReturn hword hvalue =>
      .of_value (by simp [headKind, hword]) rfl fun hc =>
        (ReadsOperand.valueReturn hword ((begins_of_isExpression hvalue).ne rfl)
          ((begins_of_isExpression hvalue).ne rfl) ((expression_complete hvalue).reads hc)).any
  | _, _, _, .bareReturn hword hnext =>
      .of_reads (.jump (.inl hword) fun _ => hnext) (by simp [headKind, hword]) rfl
  | _, _, _, .loopControl hword => .of_loopControl hword rfl

lemma arguments_complete : ∀ {ts es ts'}, AreArguments ts es ts' →
    headKind ts' = .rightParen → ReadsArguments AnyTrees ts ts'
  | _, _, _, .last h, hnext =>
      (ReadsArguments.last ((expression_complete h).reads (.of_headKind hnext (by decide)))
        hnext).any
  | _, _, _, .more h hcomma others, hnext =>
      (ReadsArguments.more ((expression_complete h).reads (.of_kind hcomma (by decide))) hcomma
        (arguments_complete others hnext)).any

lemma block_complete : ∀ {ts t ts'}, IsBlock ts t ts' → ReadsBlock (fun t => t.endsWithBlock) ts ts'
  | _, _, _, .braces hopening h hclosing =>
      (ReadsBlock.braces hopening ((begins_of_areStatements h).ne rfl)
        (statements_complete h hclosing).reads hclosing).weaken endsWithBlock_of_block

lemma statements_complete : ∀ {ts es ts'}, AreStatements ts es ts' →
    headKind ts' = .rightBrace → StatementsComplete ts ts'
  | _, _, _, .last h, hnext =>
      (expression_complete h).last ((begins_of_isExpression h).ne rfl)
        (.of_headKind hnext (by decide)) fun hne hread => (ReadsStatements.last hne hread hnext).any
  | _, _, _, .closed h hsemicolon, hnext =>
      (expression_complete h).last ((begins_of_isExpression h).ne rfl)
        (.of_kind hsemicolon (by decide))
        fun hne hread => (ReadsStatements.separated hne hread hsemicolon (.nil hnext)).any
  | _, _, _, .separated h hsemicolon others, hnext =>
      (expression_complete h).last ((begins_of_isExpression h).ne rfl)
        (.of_kind hsemicolon (by decide))
        fun hne hread =>
          (ReadsStatements.separated hne hread hsemicolon
            (statements_complete others hnext).reads).any
  | _, _, _, .adjacent h hblock others, hnext =>
      (statements_complete others hnext).adjacent (expression_complete h)
        ((begins_of_isExpression h).ne rfl) (begins_of_areStatements others) hblock
        (not_minus_of_endsWithBlock h hblock)

end

end Fern.Parsing
