import Mathlib.Tactic
import Fern.Proofs.Lexing.Literals
import Fern.Proofs.Parsing.Language
import Fern.Proofs.Program.Legible

/-!
The names and literals of the program of a text.

* `Token.Spells.name_or_number`: the lexemes of names and numbers. `PlainName.of_spells` and its
  companions say what the lexemes of names and literals cannot hold.
* `Parsing.legible_of_isExpression` and its companions: the trees that the grammar makes of such
  lexemes are legible.
* `legible_of_parse`: **the program of a text is legible**.
-/

namespace Fern

namespace Token

/-! ### Lexemes -/

variable {kind : Kind} {cs : List Char} {c : Char}

/-- What the lexemes of names and numbers look like. -/
lemma Spells.name_or_number (h : Spells kind cs) (hkind : kind ∈ [Kind.ident, .integer, .float]) :
    (kind = .ident ∧ ∀ c ∈ cs, isWordPart c) ∨
      (kind = .integer ∧ cs ≠ [] ∧ ∀ c ∈ cs, c.isDigit) ∨
      kind = .float ∧ ∃ ds es, cs = ds ++ '.' :: es ∧ ∀ c ∈ ds ++ es, c.isDigit := by
  cases h with
  | reserved h =>
      have hall : ∀ p ∈ reservedWords, p.2 ∉ [Kind.ident, .integer, .float] := by decide
      exact absurd hkind (hall _ h)
  | single h =>
      have hall : ∀ p ∈ punctuation, p.2 ∉ [Kind.ident, .integer, .float] := by decide
      exact absurd hkind (hall _ h)
  | pair h =>
      have hall : ∀ p ∈ punctuationPairs, p.2.2 ∉ [Kind.ident, .integer, .float] := by decide
      exact absurd hkind (hall _ h)
  | ident hstart hparts _ =>
      exact .inl ⟨rfl, List.forall_mem_cons.mpr ⟨isWordPart_iff.mpr (.inl hstart), hparts⟩⟩
  | integer hdigit hdigits =>
      exact .inr (.inl ⟨rfl, List.cons_ne_nil _ _, List.forall_mem_cons.mpr ⟨hdigit, hdigits⟩⟩)
  | float hdigit hdigits hdigit' hdigits' =>
      refine .inr (.inr ⟨rfl, _, _, rfl, List.forall_mem_append.mpr ⟨?_, ?_⟩⟩)
      · exact List.forall_mem_cons.mpr ⟨hdigit, hdigits⟩
      · exact List.forall_mem_cons.mpr ⟨hdigit', hdigits'⟩
  | string => exact absurd hkind (by decide)
  | char => exact absurd hkind (by decide)

lemma StringText.newline_notMem (h : StringText cs) : '\n' ∉ cs := by
  induction h with
  | nil => exact List.not_mem_nil
  | plain _ hnewline _ _ ih => simp [Ne.symm hnewline, ih]
  | escaped hnewline _ ih => simp [Ne.symm hnewline, ih]

lemma CharText.newline_notMem (h : CharText cs) : '\n' ∉ cs := by
  cases h with
  | plain _ hnewline _ => simp [Ne.symm hnewline]
  | escaped hnewline => simp [Ne.symm hnewline]

end Token

open Token

variable {t : Token}

/-- A name has neither newlines nor quotes. -/
lemma PlainName.of_spells (h : Spells t.kind t.lexeme.toList) (hkind : t.kind = .ident) :
    PlainName t.lexeme := by
  obtain ⟨-, hparts⟩ | ⟨hinteger, -⟩ | ⟨hfloat, -⟩ := h.name_or_number (by simp [hkind])
  · exact ⟨fun hmem => absurd (hparts _ hmem) (by decide),
      fun hmem => absurd (hparts _ hmem) (by decide)⟩
  · cases hkind.symm.trans hinteger
  · cases hkind.symm.trans hfloat

/-- Literals in quotes have no newlines. -/
lemma OneLine.of_spells (h : Spells t.kind t.lexeme.toList) (hquoted : t.kind.isQuoted) :
    OneLine t.lexeme := by
  obtain ⟨-, htext⟩ | ⟨-, htext⟩ := h.text_of_isQuoted hquoted
  · exact htext.newline_notMem
  · exact htext.newline_notMem

/-- A number is written as in the source, and has a dot exactly if it has a fraction. -/
lemma number_of_spells (h : Spells t.kind t.lexeme.toList)
    (hkind : t.kind = .integer ∨ t.kind = .float) :
    OneLine (Parsing.textOrKind t) ∧
      decide (t.kind = .float) = decide ('.' ∈ (Parsing.textOrKind t).toList) := by
  have htext : t.lexeme.toList ≠ [] → Parsing.textOrKind t = t.lexeme := fun hne => by
    rw [Parsing.textOrKind, if_neg]
    exact fun hempty => hne (by rw [String.isEmpty_iff.mp hempty]; rfl)
  obtain ⟨hident, -⟩ | ⟨hinteger, hne, hdigits⟩ | ⟨hfloat, ds, es, hlexeme, hdigits⟩ :=
    h.name_or_number (by rcases hkind with hkind | hkind <;> simp [hkind])
  · rcases hkind with hkind | hkind <;> cases hkind.symm.trans hident
  · rw [htext hne, hinteger]
    have hdot : '.' ∉ t.lexeme.toList := fun hmem => absurd (hdigits _ hmem) (by decide)
    exact ⟨fun hmem => absurd (hdigits _ hmem) (by decide), by simp [hdot]⟩
  · rw [htext (by simp [hlexeme]), hfloat]
    refine ⟨fun hmem => ?_, by simp [hlexeme]⟩
    have hnewline : '\n' ∈ ds ++ es := by simpa [hlexeme] using hmem
    exact absurd (hdigits _ hnewline) (by decide)

/-! ### Trees -/

namespace Parsing

/-- Tokens with lexemes of their kinds. -/
def Spelled (ts : List Token) : Prop := ∀ t ∈ ts, Spells t.kind t.lexeme.toList

variable {ts ts' : List Token}

lemma Spelled.head (h : Spelled (t :: ts)) : Spells t.kind t.lexeme.toList :=
  (List.forall_mem_cons.mp h).1

lemma Spelled.tail (h : Spelled (t :: ts)) : Spelled ts := (List.forall_mem_cons.mp h).2

lemma IsType.spelled {ty : Ty} (h : IsType ts ty ts') (hts : Spelled ts) : Spelled ts' := by
  induction h with
  | named => exact hts.tail
  | reference _ _ ih => exact ih hts.tail

lemma IsAnnotation.spelled {stated : Option Ty} (h : IsAnnotation ts stated ts')
    (hts : Spelled ts) : Spelled ts' := by
  cases h with
  | absent => exact hts
  | stated _ htype => exact htype.spelled hts.tail

lemma legible_var {id : NodeId} {l : Location} {name : String} (h : PlainName name) :
    (Tree.node id l (.var name)).Throughout Shape.Legible :=
  .node h (by simp [Shape.children])

/-- What can be assigned to is a name. -/
lemma IsTarget.legible {e : Tree} (h : IsTarget ts e ts') (hts : Spelled ts) :
    e.Throughout Shape.Legible ∧ Spelled ts' := by
  induction h with
  | name hname => exact ⟨legible_var (.of_spells hts.head hname), hts.tail⟩
  | parentheses _ _ _ ih => exact (ih hts.tail).imp_right Spelled.tail

mutual

/-- The trees that the grammar makes of tokens with lexemes of their kinds are legible, and the
tokens after them are such tokens. -/
lemma legible_of_isExpression : ∀ {ts t ts'}, IsExpression ts t ts' → Spelled ts →
    t.Throughout Shape.Legible ∧ Spelled ts'
  | _, _, _, .chain h, hts => legible_of_isChain h hts
  | _, _, _, .assignment htarget _ hvalue, hts => by
      obtain ⟨ht, hts₁⟩ := htarget.legible hts
      obtain ⟨hv, hts'⟩ := legible_of_isChain hvalue hts₁.tail
      exact ⟨.node trivial (Tree.forall_mem_two ht hv), hts'⟩
  | _, _, _, .definition htarget _ hvalue, hts => by
      obtain ⟨ht, hts₁⟩ := htarget.legible hts
      obtain ⟨hv, hts'⟩ := legible_of_isChain hvalue hts₁.tail
      have hname := ht _ _ _ (.self _)
      exact ⟨.node hname (List.forall_mem_singleton.mpr hv), hts'⟩

lemma legible_of_isChain : ∀ {layer ts t ts'}, IsChain layer ts t ts' → Spelled ts →
    t.Throughout Shape.Legible ∧ Spelled ts'
  | _, _, _, _, .operand h, hts => legible_of_isOperand h hts
  | _, _, _, _, .lower h, hts => legible_of_isChain h hts
  | _, _, _, _, .join hleft _ hright, hts => by
      obtain ⟨hl, hts₁⟩ := legible_of_isChain hleft hts
      obtain ⟨hr, hts'⟩ := legible_of_isChain hright hts₁.tail
      exact ⟨.node trivial (Tree.forall_mem_two hl hr), hts'⟩

lemma legible_of_isOperand : ∀ {ts t ts'}, IsOperand ts t ts' → Spelled ts →
    t.Throughout Shape.Legible ∧ Spelled ts'
  | _, _, _, .unary _ h, hts => by
      obtain ⟨he, hts'⟩ := legible_of_isOperand h hts.tail
      exact ⟨.node trivial (List.forall_mem_singleton.mpr he), hts'⟩
  | _, _, _, .number htoken, hts =>
      ⟨.node (number_of_spells hts.head htoken) (by simp [Shape.children]), hts.tail⟩
  | _, _, _, .string htoken, hts =>
      ⟨.node (OneLine.of_spells hts.head (by rw [htoken]; rfl)) (by simp [Shape.children]),
        hts.tail⟩
  | _, _, _, .char htoken, hts =>
      ⟨.node (OneLine.of_spells hts.head (by rw [htoken]; rfl)) (by simp [Shape.children]),
        hts.tail⟩
  | _, _, _, .boolean _, hts => ⟨.node trivial (by simp [Shape.children]), hts.tail⟩
  | _, _, _, .var hname, hts => ⟨legible_var (.of_spells hts.head hname), hts.tail⟩
  | _, _, _, .emptyCall hname _ _, hts =>
      ⟨.node (PlainName.of_spells hts.head hname) (by simp [Shape.children]), hts.tail.tail.tail⟩
  | _, _, _, .call hname _ h _, hts => by
      obtain ⟨hes, hts'⟩ := legible_of_areArguments h hts.tail.tail
      exact ⟨.node (PlainName.of_spells hts.head hname) hes, hts'.tail⟩
  | _, _, _, .subscript hname _ h _, hts => by
      obtain ⟨hindex, hts'⟩ := legible_of_isExpression h hts.tail.tail
      exact ⟨.node trivial (Tree.forall_mem_two (legible_var (.of_spells hts.head hname)) hindex),
        hts'.tail⟩
  | _, _, _, .grouping _ h _, hts => (legible_of_isExpression h hts.tail).imp_right Spelled.tail
  | _, _, _, .block h, hts => legible_of_isBlock h hts
  | _, _, _, .binding _ hname hstated _ h, hts => by
      obtain ⟨hv, hts'⟩ := legible_of_isExpression h (hstated.spelled hts.tail.tail).tail
      exact ⟨.node (PlainName.of_spells hts.tail.head hname) (List.forall_mem_singleton.mpr hv),
        hts'⟩
  | _, _, _, .cond _ hcondition hthen, hts => by
      obtain ⟨hc, hts₁⟩ := legible_of_isExpression hcondition hts.tail
      obtain ⟨hb, hts'⟩ := legible_of_isBlock hthen hts₁
      exact ⟨.node trivial (Tree.forall_mem_two hc hb), hts'⟩
  | _, _, _, .condElse _ hcondition hthen _ helse, hts => by
      obtain ⟨hc, hts₁⟩ := legible_of_isExpression hcondition hts.tail
      obtain ⟨hb, hts₂⟩ := legible_of_isBlock hthen hts₁
      obtain ⟨he, hts'⟩ := legible_of_isBlock helse hts₂.tail
      exact ⟨.node trivial (List.forall_mem_cons.mpr ⟨hc, Tree.forall_mem_two hb he⟩), hts'⟩
  | _, _, _, .valueReturn _ h, hts => by
      obtain ⟨hv, hts'⟩ := legible_of_isExpression h hts.tail
      exact ⟨.node trivial (List.forall_mem_singleton.mpr hv), hts'⟩
  | _, _, _, .bareReturn _ _, hts => ⟨.node trivial (by simp [Shape.children]), hts.tail⟩
  | _, _, _, .loopControl _, hts => ⟨.node trivial (by simp [Shape.children]), hts.tail⟩

lemma legible_of_areArguments : ∀ {ts es ts'}, AreArguments ts es ts' → Spelled ts →
    (∀ e ∈ es, e.Throughout Shape.Legible) ∧ Spelled ts'
  | _, _, _, .last h, hts =>
      (legible_of_isExpression h hts).imp_left List.forall_mem_singleton.mpr
  | _, _, _, .more h _ others, hts => by
      obtain ⟨he, hts₁⟩ := legible_of_isExpression h hts
      obtain ⟨hes, hts'⟩ := legible_of_areArguments others hts₁.tail
      exact ⟨List.forall_mem_cons.mpr ⟨he, hes⟩, hts'⟩

lemma legible_of_isBlock : ∀ {ts t ts'}, IsBlock ts t ts' → Spelled ts →
    t.Throughout Shape.Legible ∧ Spelled ts'
  | _, _, _, .braces _ h _, hts => by
      obtain ⟨hes, hts'⟩ := legible_of_areStatements h hts.tail
      exact ⟨.node trivial hes, hts'.tail⟩

lemma legible_of_areStatements : ∀ {ts es ts'}, AreStatements ts es ts' → Spelled ts →
    (∀ e ∈ es, e.Throughout Shape.Legible) ∧ Spelled ts'
  | _, _, _, .last h, hts =>
      (legible_of_isExpression h hts).imp_left List.forall_mem_singleton.mpr
  | _, _, _, .closed h _, hts =>
      (legible_of_isExpression h hts).imp List.forall_mem_singleton.mpr Spelled.tail
  | _, _, _, .separated h _ others, hts => by
      obtain ⟨he, hts₁⟩ := legible_of_isExpression h hts
      obtain ⟨hes, hts'⟩ := legible_of_areStatements others hts₁.tail
      exact ⟨List.forall_mem_cons.mpr ⟨he, hes⟩, hts'⟩
  | _, _, _, .adjacent h _ others, hts => by
      obtain ⟨he, hts₁⟩ := legible_of_isExpression h hts
      obtain ⟨hes, hts'⟩ := legible_of_areStatements others hts₁
      exact ⟨List.forall_mem_cons.mpr ⟨he, hes⟩, hts'⟩

end

/-! ### Programs -/

lemma AreParameters.legible {ps : List Parameter} (h : AreParameters ts ps ts')
    (hts : Spelled ts) : (∀ p ∈ ps, p.Legible) ∧ Spelled ts' := by
  induction h with
  | last hname _ htype =>
      exact ⟨List.forall_mem_singleton.mpr (.of_spells hts.head hname),
        htype.spelled hts.tail.tail⟩
  | more hname _ htype _ _ ih =>
      obtain ⟨hps, hts'⟩ := ih (htype.spelled hts.tail.tail).tail
      exact ⟨List.forall_mem_cons.mpr ⟨.of_spells hts.head hname, hps⟩, hts'⟩

lemma IsParameterList.legible {ps : List Parameter} (h : IsParameterList ts ps ts')
    (hts : Spelled ts) : (∀ p ∈ ps, p.Legible) ∧ Spelled ts' := by
  cases h with
  | empty => exact ⟨by simp, hts⟩
  | some h => exact h.legible hts

lemma IsReturnType.spelled {ty : Ty} (h : IsReturnType ts ty ts') (hts : Spelled ts) :
    Spelled ts' := by
  cases h with
  | absent => exact hts
  | stated _ htype => exact htype.spelled hts.tail

lemma IsPrototype.legible {p : Prototype} (h : IsPrototype ts p ts') (hts : Spelled ts) :
    p.Legible ∧ Spelled ts' := by
  cases h with
  | intro _ hname _ hparameters _ hreturn =>
      obtain ⟨hps, hts₁⟩ := hparameters.legible hts.tail.tail.tail
      exact ⟨⟨.of_spells hts.tail.head hname, hps⟩, hreturn.spelled hts₁.tail⟩

lemma IsProgram.legible {cs : List Construct} (h : IsProgram ts cs) (hts : Spelled ts) :
    (∀ q ∈ cs.filterMap Construct.declaration?, q.Legible) ∧
      ∀ f ∈ cs.filterMap Construct.function?, f.1.Legible ∧ f.2.Throughout Shape.Legible := by
  induction h with
  | empty => simp
  | function hprototype hbody _ ih =>
      obtain ⟨hp, hts₁⟩ := hprototype.legible hts
      obtain ⟨hb, hts'⟩ := legible_of_isBlock hbody hts₁
      exact (ih hts').imp_right fun hfunctions => List.forall_mem_cons.mpr ⟨⟨hp, hb⟩, hfunctions⟩
  | declaration _ hprototype _ _ ih =>
      obtain ⟨hp, hts'⟩ := hprototype.legible hts.tail
      exact (ih hts'.tail).imp_left fun hdeclarations =>
        List.forall_mem_cons.mpr ⟨hp, hdeclarations⟩

end Parsing

open Parsing

/-- **The program of a text.** All its names and literals can be told from what is around them in
its dump, and nothing is missing. -/
lemma legible_of_parse {source : String} {log₀ log : Log} {tokens : List Token} {p : Program}
    (htokens : (tokenize source log₀).1 = some tokens) (h : (parse tokens log).1 = some p) :
    p.Legible := by
  obtain ⟨cs, hcs, hdeclarations, hfunctions⟩ := isProgram_of_parse h
  obtain ⟨hheads, hbodies⟩ := hcs.legible fun t ht => spells_of_tokenize htokens ht
  refine ⟨hdeclarations ▸ hheads, fun f hf => ?_⟩
  obtain ⟨hhead, hbody⟩ := hbodies (f.prototype, p.body f)
    (hfunctions ▸ List.mem_map.mpr ⟨f, hf, rfl⟩)
  exact ⟨hhead, ((stored_of_parse h).1 f hf).complete, hbody⟩

end Fern
