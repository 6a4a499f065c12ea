import Mathlib.Tactic
import Fern.Proofs.Parsing.Language
import Fern.Proofs.Parsing.Printing

/-!
Programs that are written out are read back.

* `Says`: tokens with given words, wherever they stand.
* `Tree.Same`: an expression but for the numbers and places of its parts.
* `ReadsBack`: the words of an expression are read as the same expression, up to where they end. An
  expression that is no statement is always read in parentheses.
* `readsBack_of_writable`: this holds of every expression that can be written.
* `parse_words`: **round trip**.
-/

namespace Fern

/-- The expression `t` is `e`, but for the numbers and places of the parts. -/
def Tree.Same (e t : Tree) : Prop := t.erase = e.erase

lemma Tree.Same.erase_eq {e t : Tree} (h : e.Same t) : t.erase = e.erase := h

lemma Tree.name?_erase (t : Tree) : t.erase.name? = t.name? := by
  cases t with
  | missing id => rfl
  | node id l shape => cases shape <;> rfl

/-- Names are the same only if they are equal. -/
lemma Tree.Same.name?_eq {e t : Tree} (h : e.Same t) : t.name? = e.name? := by
  rw [← t.name?_erase, h.erase_eq, e.name?_erase]

namespace Parsing

variable {bare statement : Bool} {e left right : Tree} {es : List Tree} {id : NodeId} {l : Location}
  {us rest ts ts' ts₁ : List Token} {w : Word} {ws ws' : List Word}
  {good : Tree → Prop} {goods : List Tree → Prop}

/-! ### Tokens with given words -/

/-- The tokens have the words `ws`, one each. -/
def Says (ts : List Token) (ws : List Word) : Prop := ts.map Token.word = ws

lemma Says.nil (h : Says us []) : us = [] := List.map_eq_nil_iff.mp h

lemma Says.cons (h : Says us (w :: ws)) :
    ∃ t vs, us = t :: vs ∧ t.kind = w.1 ∧ t.lexeme = w.2 ∧ Says vs ws := by
  obtain ⟨t, vs, rfl, rfl, hvs⟩ := List.map_eq_cons_iff.mp h
  exact ⟨t, vs, rfl, rfl, rfl, hvs⟩

lemma Says.append (h : Says us (ws ++ ws')) :
    ∃ vs vs', us = vs ++ vs' ∧ Says vs ws ∧ Says vs' ws' :=
  List.map_eq_append_iff.mp h

lemma Says.singleton (h : Says us [w]) : ∃ t, us = [t] ∧ t.kind = w.1 ∧ t.lexeme = w.2 := by
  obtain ⟨t, vs, rfl, hkind, hlexeme, hvs⟩ := h.cons
  obtain rfl := hvs.nil
  exact ⟨t, rfl, hkind, hlexeme⟩

lemma Says.inParens (h : Says us (Word.inParens ws)) :
    ∃ opening vs closing, us = opening :: vs ++ [closing] ∧ opening.kind = .leftParen ∧ Says vs ws ∧
      closing.kind = .rightParen := by
  obtain ⟨opening, vs, rfl, hopening, -, h⟩ := h.cons
  obtain ⟨vs, vs', rfl, hvs, h⟩ := h.append
  obtain ⟨closing, rfl, hclosing, -⟩ := h.singleton
  exact ⟨opening, vs, closing, rfl, hopening, hvs, hclosing⟩

lemma Says.separated {wss : List (List Word)}
    (h : Says us (Word.separated (ws :: ws' :: wss))) :
    ∃ vs comma vs', us = vs ++ comma :: vs' ∧ Says vs ws ∧ comma.kind = .comma ∧
      Says vs' (Word.separated (ws' :: wss)) := by
  rw [Word.separated, List.intercalate_cons_cons, List.append_assoc] at h
  obtain ⟨vs, _, rfl, hvs, h⟩ := h.append
  obtain ⟨comma, vs', rfl, hcomma, -, hvs'⟩ := h.cons
  exact ⟨vs, comma, vs', rfl, hvs, hcomma, hvs'⟩

/-- A name that is not reserved is an identifier. -/
lemma wordKind_of_isName {name : String} (h : IsName name) :
    Token.wordKind name.toList = .ident := by
  have hnone : Token.reservedWords.lookup name = none := by
    refine List.lookup_eq_none_iff.mpr fun p hp => bne_iff_ne.mpr ?_
    rintro rfl
    exact h p.2 hp
  simp [Token.wordKind, hnone]

/-! ### Types and heads of functions -/

/-- A type that can be stated is named by an identifier. -/
lemma name_of_stated {ty : Ty} (h : ty.Stated) :
    Token.wordKind ty.base.name.toList = .ident ∧ Ty.ofName? ty.base.name = some ty.base := by
  have hall : ∀ base ∈ [Ty.Base.int, .float, .char, .str, .bool],
      Token.wordKind base.name.toList = .ident ∧ Ty.ofName? base.name = some base := by
    decide
  exact hall ty.base h

lemma isType_of_words {ty : Ty} (hty : ty.Stated) (h : Says us ty.words) :
    IsType (us ++ rest) ty rest := by
  obtain ⟨base, depth⟩ := ty
  obtain ⟨hkind, hknown⟩ := name_of_stated hty
  induction depth generalizing us with
  | zero =>
      obtain ⟨token, rfl, htoken, hlexeme⟩ := h.singleton
      exact .named (htoken.trans hkind) (by rw [hlexeme]; exact hknown)
  | succ depth ih =>
      obtain ⟨mark, vs, rfl, hmark, -, h⟩ := h.cons
      exact .reference hmark (ih hty h hkind hknown)

lemma isAnnotation_of_words {stated : Option Ty} (hstated : ∀ ty ∈ stated, Ty.Stated ty)
    (h : Says us (Ty.annotation stated)) : IsAnnotation (us ++ rest) stated rest := by
  cases stated with
  | none =>
      obtain rfl := h.nil
      exact .absent
  | some ty =>
      obtain ⟨colon, vs, rfl, hcolon, -, h⟩ := h.cons
      exact .stated hcolon (isType_of_words (hstated ty rfl) h)

lemma exists_of_parameter_words {p : Parameter} (hname : IsName p.name) (h : Says us p.words) :
    ∃ name colon vs, us = name :: colon :: vs ∧ name.kind = .ident ∧ name.lexeme = p.name ∧
      colon.kind = .colon ∧ Says vs p.type.words := by
  obtain ⟨name, _, rfl, hkind, hlexeme, h⟩ := h.cons
  obtain ⟨colon, vs, rfl, hcolon, -, h⟩ := h.cons
  exact ⟨name, colon, vs, rfl, hkind.trans (wordKind_of_isName hname), hlexeme, hcolon, h⟩

lemma areParameters_of_words {p : Parameter} {ps : List Parameter}
    (hps : ∀ q ∈ p :: ps, IsName q.name ∧ q.type.Stated)
    (h : Says us (Word.separated ((p :: ps).map Parameter.words))) :
    ∃ qs, AreParameters (us ++ rest) qs rest ∧
      qs.map Parameter.erase = (p :: ps).map Parameter.erase := by
  induction ps generalizing p us with
  | nil =>
      obtain ⟨hname, htype⟩ := hps p (by simp)
      rw [List.map_singleton, Word.separated, List.intercalate_singleton] at h
      obtain ⟨name, colon, vs, rfl, hident, hlexeme, hcolon, h⟩ := exists_of_parameter_words hname h
      refine ⟨_, .last hident hcolon (isType_of_words htype h), ?_⟩
      simp [Parameter.erase, hlexeme]
  | cons q ps ih =>
      obtain ⟨hname, htype⟩ := hps p (by simp)
      obtain ⟨_, comma, vs', rfl, h, hcomma, hothers⟩ := h.separated
      obtain ⟨name, colon, vs, rfl, hident, hlexeme, hcolon, h⟩ := exists_of_parameter_words hname h
      obtain ⟨qs, hqs, hsame⟩ := ih (fun r hr => hps r (.tail _ hr)) hothers
      refine ⟨⟨name.lexeme, p.type, name.location⟩ :: qs, ?_, ?_⟩
      · simpa only [List.cons_append, List.append_assoc] using
          AreParameters.more hident hcolon (isType_of_words htype h) hcomma hqs
      · simp [Parameter.erase, hlexeme, hsame]

/-- The words of the head of a function make a derivation of it. -/
lemma isPrototype_of_words {p : Prototype} (rest : List Token) (hp : p.Writable)
    (h : Says us p.words) :
    ∃ q, IsPrototype (us ++ rest) q rest ∧ q.erase = p.erase := by
  obtain ⟨vs, vs', rfl, h, hreturn⟩ := h.append
  obtain ⟨word, _, rfl, hword, -, h⟩ := h.cons
  obtain ⟨name, _, rfl, hname, hlexeme, h⟩ := h.cons
  obtain ⟨opening, vs, closing, rfl, hopening, h, hclosing⟩ := h.inParens
  have hparameters : ∃ qs, IsParameterList (vs ++ closing :: (vs' ++ rest)) qs
      (closing :: (vs' ++ rest)) ∧ qs.map Parameter.erase = p.parameters.map Parameter.erase := by
    have hall := hp.parameters
    cases hps : p.parameters with
    | nil =>
        rw [hps] at h
        obtain rfl := h.nil
        exact ⟨[], .empty, rfl⟩
    | cons q ps =>
        rw [hps] at h hall
        obtain ⟨qs, hqs, hsame⟩ := areParameters_of_words hall h
        exact ⟨qs, .some hqs, hsame⟩
  have hreturns : IsReturnType (vs' ++ rest) p.returnType rest := by
    split at hreturn
    · next hvoid =>
        obtain rfl := hreturn.nil
        rw [hvoid]
        exact .absent
    · next hvoid =>
        obtain ⟨arrow, vs, rfl, harrow, -, h⟩ := hreturn.cons
        exact .stated harrow (isType_of_words (hp.returnType.resolve_left hvoid) h)
  obtain ⟨qs, hqs, hsame⟩ := hparameters
  refine ⟨⟨name.lexeme, qs, p.returnType, name.location⟩, ?_, ?_⟩
  · simpa only [List.cons_append, List.append_assoc, List.nil_append] using
      IsPrototype.intro hword (hname.trans (wordKind_of_isName hp.name)) hopening hqs hclosing
        hreturns
  · simp [Prototype.erase, hsame, hlexeme, Word.name]

/-! ### Operators -/

/-- Two operands and an operator between them are an expression, if the operator can join them and
none follows. -/
lemma ReadsExpression.joined {good₁ good₂ : Tree → Prop} {operator : Token} {power : Power}
    {rule : OperatorRule}
    (hrule : Tables.standard.operator operator.kind = some (power, rule))
    (hleft : ReadsOperand good₁ ts (operator :: ts₁)) (hright : ReadsOperand good₂ ts₁ ts')
    (hstop : level (headKind ts') < 0)
    (hjoin : ∀ t u s, good₁ t → good₂ u →
      ∃ joined s', s'.rest = s.rest ∧ good joined ∧ join rule t operator u s = .ok joined s') :
    ReadsExpression good ts ts' := by
  have hshorter := hleft.shorter
  have hshorter' := hright.shorter
  have hpower : 0 ≤ power.level ∧ ¬ power.level < level (headKind ts') := by
    rcases operator_cases hrule with ⟨-, hpower, -⟩ | ⟨-, layer, hlayer, -, hpower⟩ <;> omega
  rw [List.length_cons] at hshorter
  refine ⟨by omega, .of_succ (by omega) fun s hs => ?_⟩
  obtain ⟨t, s₁, hs₁, ht, hrun₁⟩ := hleft.run s hs
  obtain ⟨u, s₂, hs₂, hu, hrun₂⟩ := hright.run (s₁.moved ts₁) rfl
  obtain ⟨joined, s₃, hs₃, hgood, hjoined⟩ := hjoin t u s₂ ht hu
  refine ⟨joined, s₃, hs₃.trans hs₂, hgood, fun n hn => expressionWithin_eq_ok.mpr ?_⟩
  obtain ⟨m, rfl⟩ : ∃ m, n = m + 2 := ⟨n - 2, by omega⟩
  refine ⟨t, s₁, hrun₁ _ (by omega), (climbWithin_operator_eq_ok hs₁ hrule hpower.1).mpr ?_⟩
  rw [← State.kind_eq hs₂] at hpower
  rw [← State.kind_eq (hs₃.trans hs₂)] at hstop
  exact ⟨u, s₂, u, s₂, joined, s₃, hrun₂ _ (by omega), congrFun (if_neg hpower.2) s₂,
    hjoined, climbWithin_stop hstop⟩

/-! ### First tokens -/

/-- What is read as an expression begins like one. -/
lemma ReadsExpression.begins (h : ReadsExpression good ts ts') : Begins ts := by
  obtain ⟨n, s, t, s', rfl, -, hrun⟩ := h.run.exists_run
  exact begins_of_isExpression ((soundAt n).expression hrun).1

lemma ReadsArguments.begins (h : ReadsArguments goods ts ts') : Begins ts := by
  obtain ⟨n, s, fs, s', rfl, -, hrun⟩ := h.run.exists_run
  exact begins_of_areArguments ((soundAt n).arguments hrun).1

/-- Where statements are read, the block does not end yet. -/
lemma ReadsStatements.headKind_ne (h : ReadsStatements goods ts ts')
    (hgoods : ∀ fs, goods fs → fs ≠ []) : headKind ts ≠ .rightBrace := by
  obtain ⟨n, s, fs, s', rfl, hfs, hrun⟩ := h.run.exists_run
  rcases (soundAt n).statements hrun with ⟨-, hempty, -⟩ | ⟨hne, -, -⟩
  · exact absurd hempty (hgoods fs hfs)
  · rwa [State.kind_eq rfl] at hne

/-! ### Expressions -/

/-- The kind of the token after an expression: a statement ends with a semicolon, all others stand
in parentheses. -/
def ending (statement : Bool) : Token.Kind := if statement then .semicolon else .rightParen

/-- The words of an expression are read as the same expression up to where they end, and those of a
block are so whatever comes after them. -/
structure ReadsBack (bare statement : Bool) (e : Tree) : Prop where
  expression : ∀ {us rest}, Says us (e.words bare) → headKind rest = ending statement →
    ReadsExpression e.Same (us ++ rest) rest
  block : e.isBlock → ∀ {us rest}, Says us (e.words bare) → ReadsBlock e.Same (us ++ rest) rest

lemma level_ending (h : headKind rest = ending statement) : level (headKind rest) < 0 := by
  rw [h]
  cases statement <;> decide

/-- What has the form of an expression over the same subexpressions is the same. -/
lemma same_of_formed {form : Shape Tree → Prop} {shape : Shape Tree} {t : Tree}
    (h : Formed form t) (hform : ∀ s, form s → s.map Tree.erase = shape.map Tree.erase) :
    (Tree.node id l shape).Same t := by
  obtain ⟨_, _, s, rfl, hs⟩ := h
  rw [Tree.Same, Tree.erase_node, Tree.erase_node, hform s hs]

lemma ReadsOperand.same {form : Shape Tree → Prop} {shape : Shape Tree}
    (h : ReadsOperand (Formed form) ts ts')
    (hform : ∀ s, form s → s.map Tree.erase = shape.map Tree.erase) :
    ReadsOperand (Tree.node id l shape).Same ts ts' :=
  h.weaken fun _ ht => same_of_formed ht hform

/-- An operand that is read as the same expression is one that does not end there. -/
lemma ReadsBack.of_operand (hblock : e.isBlock = false)
    (h : ∀ {us rest}, Says us (e.words bare) → headKind rest = ending statement →
      ReadsOperand e.Same (us ++ rest) rest) : ReadsBack bare statement e where
  expression hus hrest := .of_operand (h hus hrest) (level_ending hrest)
  block h := by simp [hblock] at h

/-- In parentheses an expression is an operand, whatever comes after it. -/
lemma ReadsBack.inParens (h : ReadsBack bare false e)
    (hus : Says us (Word.inParens (e.words bare))) :
    ReadsOperand e.Same (us ++ rest) rest := by
  obtain ⟨opening, vs, closing, rfl, hopening, hvs, hclosing⟩ := hus.inParens
  have hinner : ReadsExpression e.Same (vs ++ closing :: rest) (closing :: rest) :=
    h.expression hvs hclosing
  simpa only [List.cons_append, List.append_assoc, List.nil_append] using
    ReadsOperand.grouping hopening hinner hclosing

/-- In parentheses an expression is a whole one, unless an operator comes after it. -/
lemma ReadsBack.value (h : ReadsBack bare false e) (hus : Says us (Word.inParens (e.words bare)))
    (hstop : level (headKind rest) < 0) : ReadsExpression e.Same (us ++ rest) rest :=
  .of_operand (h.inParens hus) hstop

lemma headKind_inParens (h : Says us (Word.inParens ws)) : headKind (us ++ rest) = .leftParen := by
  obtain ⟨opening, vs, closing, rfl, hopening, -, -⟩ := h.inParens
  exact hopening

lemma operator_of_mem_binaryOperators {k : Token.Kind} (h : k ∈ Tree.binaryOperators) :
    ∃ power, Tables.standard.operator k = some (power, .binary) := by
  have hall : ∀ k ∈ Tree.binaryOperators,
      (Tables.standard.operator k).map Prod.snd = some .binary := by
    decide
  obtain ⟨⟨power, rule⟩, hrule, rfl⟩ := Option.map_eq_some_iff.mp (hall k h)
  exact ⟨power, hrule⟩

lemma ReadsBack.binary {operator : Token.Kind} (hoperator : operator ∈ Tree.binaryOperators)
    (hleft : ReadsBack bare false left) (hright : ReadsBack bare false right) :
    ReadsBack bare statement (.node id l (.binary operator left right)) where
  expression {us rest} hus hrest := by
    have hne : ¬ (bare ∧ operator = .equal) := by
      rintro ⟨-, rfl⟩
      exact absurd hoperator (by decide)
    rw [Tree.words, if_neg hne] at hus
    obtain ⟨vs, _, rfl, hvs, hus⟩ := hus.append
    obtain ⟨token, vs', rfl, htoken, -, hvs'⟩ := hus.cons
    obtain ⟨power, hrule⟩ := operator_of_mem_binaryOperators hoperator
    have htoken' : token.kind = operator := htoken
    rw [← htoken'] at hrule
    rw [List.append_assoc, List.cons_append]
    refine .joined hrule (hleft.inParens hvs) (hright.inParens hvs') (level_ending hrest) ?_
    intro t u s ht hu
    refine ⟨s.built (.binary token.kind t u) token.location,
      s.added (.binary token.kind t u) token.location, rfl, ?_, join_binary ▸ add_run _ _ _⟩
    refine same_of_formed ⟨_, _, _, rfl, rfl⟩ ?_
    rintro _ rfl
    simp only [Shape.map, ht.erase_eq, hu.erase_eq, htoken']
  block h := by simp [Tree.isBlock] at h

/-- Assignments are read back whether or not the name stands in parentheses. -/
lemma ReadsBack.assignment {name : String} {targetId : NodeId} {l' : Location} {value : Tree}
    (htarget : ReadsBack bare false (.node targetId l' (.var name))) (hname : IsName name)
    (hvalue : ReadsBack bare false value) :
    ReadsBack bare statement
      (.node id l (.binary .equal (.node targetId l' (.var name)) value)) where
  expression {us rest} hus hrest := by
    rw [Tree.words] at hus
    obtain ⟨vs, _, rfl, hvs, hus⟩ := hus.append
    obtain ⟨token, vs', rfl, htoken, -, hvs'⟩ := hus.cons
    have htoken' : token.kind = .equal := htoken
    have hrule : Tables.standard.operator token.kind = some (.assignment, .assignment) := by
      rw [htoken']
      rfl
    have hleft : ReadsOperand (Tree.node targetId l' (.var name)).Same
        (vs ++ token :: (vs' ++ rest)) (token :: (vs' ++ rest)) := by
      split at hvs
      · obtain ⟨word, rfl, hword, hlexeme⟩ := hvs.singleton
        have hident : word.kind = .ident := hword.trans (wordKind_of_isName hname)
        refine (ReadsOperand.var hident ?_ ?_).same ?_
        · simp [headKind, htoken']
        · simp [headKind, htoken']
        · rintro _ rfl
          simp [Shape.map, hlexeme, Word.name]
      · exact htarget.inParens hvs
    rw [List.append_assoc, List.cons_append]
    refine .joined hrule hleft (hvalue.inParens hvs') (level_ending hrest) ?_
    intro t u s ht hu
    have hname : t.name? = some name := ht.name?_eq
    refine ⟨s.built (.binary .equal t u) token.location,
      s.added (.binary .equal t u) token.location, rfl, ?_, join_equal hname htoken'⟩
    refine same_of_formed ⟨_, _, _, rfl, rfl⟩ ?_
    rintro _ rfl
    simp only [Shape.map, ht.erase_eq, hu.erase_eq]
  block h := by simp [Tree.isBlock] at h

lemma ReadsBack.unary {operator : Token.Kind} (hoperator : operator = .minus ∨ operator = .bang)
    (h : ReadsBack bare false e) : ReadsBack bare statement (.node id l (.unary operator e)) := by
  refine .of_operand rfl fun hus _ => ?_
  obtain ⟨token, vs, rfl, htoken, -, hvs⟩ := hus.cons
  have htoken' : token.kind = operator := htoken
  refine (ReadsOperand.unary (htoken' ▸ hoperator) (h.inParens hvs)).same ?_
  rintro _ ⟨t, ht, rfl⟩
  simp only [Shape.map, ht.erase_eq, htoken']

lemma ReadsBack.cond {condition thenBlock : Tree} (h : ReadsBack bare false condition)
    (h' : ReadsBack bare false thenBlock) (hblock : thenBlock.isBlock) :
    ReadsBack bare statement (.node id l (.cond condition thenBlock none)) := by
  refine .of_operand rfl fun {us rest} hus hrest => ?_
  obtain ⟨_, vs', rfl, hus, hvs'⟩ := hus.append
  obtain ⟨token, vs, rfl, htoken, -, hvs⟩ := hus.cons
  have hthen : ReadsBlock thenBlock.Same (vs' ++ rest) rest := h'.block hblock hvs'
  have hcondition : ReadsExpression condition.Same (vs ++ (vs' ++ rest)) (vs' ++ rest) :=
    h.value hvs (by rw [hthen.headKind_eq]; decide)
  have helse : headKind rest ≠ .elseWord := by
    rw [hrest]
    cases statement <;> decide
  rw [List.cons_append, List.cons_append, List.append_assoc]
  refine (ReadsOperand.cond htoken hcondition hthen helse).same ?_
  rintro _ ⟨c, b, hc, hb, rfl⟩
  simp only [Shape.map, hc.erase_eq, hb.erase_eq, Option.map_none]

lemma ReadsBack.condElse {condition thenBlock elseBlock : Tree}
    (h : ReadsBack bare false condition) (h' : ReadsBack bare false thenBlock)
    (hblock : thenBlock.isBlock) (h'' : ReadsBack bare false elseBlock)
    (hblock' : elseBlock.isBlock) :
    ReadsBack bare statement (.node id l (.cond condition thenBlock (some elseBlock))) := by
  refine .of_operand rfl fun {us rest} hus _ => ?_
  obtain ⟨_, _, rfl, hus, hus'⟩ := hus.append
  obtain ⟨_, vs', rfl, hus, hvs'⟩ := hus.append
  obtain ⟨token, vs, rfl, htoken, -, hvs⟩ := hus.cons
  obtain ⟨other, vs'', rfl, hother, -, hvs''⟩ := hus'.cons
  have helse : ReadsBlock elseBlock.Same (vs'' ++ rest) rest := h''.block hblock' hvs''
  have hthen : ReadsBlock thenBlock.Same (vs' ++ other :: (vs'' ++ rest))
      (other :: (vs'' ++ rest)) := h'.block hblock hvs'
  have hcondition : ReadsExpression condition.Same (vs ++ (vs' ++ other :: (vs'' ++ rest)))
      (vs' ++ other :: (vs'' ++ rest)) := h.value hvs (by rw [hthen.headKind_eq]; decide)
  simp only [List.cons_append, List.append_assoc]
  refine (ReadsOperand.condElse htoken hcondition hthen hother helse).same ?_
  rintro _ ⟨c, b, e, hc, hb, he, rfl⟩
  simp only [Shape.map, hc.erase_eq, hb.erase_eq, he.erase_eq, Option.map_some]

lemma ReadsBack.binding {name : String} {stated : Option Ty} {value : Tree} (hname : IsName name)
    (hstated : ∀ ty ∈ stated, Ty.Stated ty) (h : ReadsBack bare false value) :
    ReadsBack bare statement (.node id l (.binding name stated value)) := by
  refine .of_operand rfl fun {us rest} hus hrest => ?_
  obtain ⟨_, _, rfl, hus, hus'⟩ := hus.append
  obtain ⟨token, _, rfl, htoken, -, hus⟩ := hus.cons
  obtain ⟨word, vs, rfl, hword, hlexeme, hvs⟩ := hus.cons
  obtain ⟨equal, vs', rfl, hequal, -, hvs'⟩ := hus'.cons
  have hannotation : IsAnnotation (vs ++ equal :: (vs' ++ rest)) stated (equal :: (vs' ++ rest)) :=
    isAnnotation_of_words hstated hvs
  have hvalue := h.value hvs' (level_ending hrest)
  simp only [List.cons_append, List.append_assoc]
  refine (ReadsOperand.binding htoken (hword.trans (wordKind_of_isName hname)) hannotation hequal
    hvalue).same ?_
  rintro _ ⟨t, ht, rfl⟩
  simp only [Shape.map, ht.erase_eq, hlexeme, Word.name]

lemma ReadsBack.valueReturn {value : Tree} (h : ReadsBack bare false value) :
    ReadsBack bare statement (.node id l (.jump .returnWord (some value))) := by
  refine .of_operand rfl fun {us rest} hus hrest => ?_
  obtain ⟨token, vs, rfl, htoken, -, hvs⟩ := hus.cons
  have hparen : headKind (vs ++ rest) = .leftParen := headKind_inParens hvs
  have htoken' : token.kind = .returnWord := htoken
  refine (ReadsOperand.valueReturn htoken' (by simp [hparen]) (by simp [hparen])
    (h.value hvs (level_ending hrest))).same ?_
  rintro _ ⟨t, ht, rfl⟩
  simp only [Shape.map, ht.erase_eq, htoken', Option.map_some]

/-- A jump without a value is read back, a `return` only where a statement ends. -/
lemma ReadsBack.jump {operator : Token.Kind}
    (h : (operator = .returnWord ∧ statement) ∨ operator = .breakWord ∨ operator = .continueWord) :
    ReadsBack bare statement (.node id l (.jump operator none)) := by
  refine .of_operand rfl fun {us rest} hus hrest => ?_
  obtain ⟨token, rfl, htoken, -⟩ := hus.singleton
  have htoken' : token.kind = operator := htoken
  refine (ReadsOperand.jump (htoken' ▸ h.imp_left And.left) fun hreturn => ?_).same ?_
  · rcases h with ⟨-, rfl⟩ | rfl | rfl
    · exact .inl hrest
    · cases htoken'.symm.trans hreturn
    · cases htoken'.symm.trans hreturn
  · rintro _ rfl
    simp only [Shape.map, htoken']

lemma ReadsBack.var {name : String} (hname : IsName name) :
    ReadsBack bare statement (.node id l (.var name)) := by
  refine .of_operand rfl fun {us rest} hus hrest => ?_
  obtain ⟨token, rfl, htoken, hlexeme⟩ := hus.singleton
  refine (ReadsOperand.var (htoken.trans (wordKind_of_isName hname)) ?_ ?_).same ?_
  · refine ne_of_eq_of_ne hrest ?_
    cases statement <;> decide
  · refine ne_of_eq_of_ne hrest ?_
    cases statement <;> decide
  · rintro _ rfl
    simp only [Shape.map, hlexeme, Word.name]

lemma ReadsBack.subscript {name : String} {varId : NodeId} {l' : Location} {index : Tree}
    (hname : IsName name) (h : ReadsBack bare false index) :
    ReadsBack bare statement
      (.node id l (.subscript (.node varId l' (.var name)) index)) := by
  refine .of_operand rfl fun {us rest} hus _ => ?_
  obtain ⟨_, _, rfl, hname', hend⟩ := hus.append
  obtain ⟨closing, rfl, hclosing, -⟩ := hend.singleton
  obtain ⟨token, _, rfl, htoken, hlexeme, hbracket⟩ := hname'.cons
  obtain ⟨opening, vs, rfl, hopening, -, hvs⟩ := hbracket.cons
  have hclosing' : closing.kind = .rightBracket := hclosing
  have hindex : ReadsExpression index.Same (vs ++ closing :: rest) (closing :: rest) :=
    h.value hvs (by rw [headKind, hclosing']; decide)
  simp only [List.cons_append, List.append_assoc, List.nil_append]
  refine (ReadsOperand.subscript (htoken.trans (wordKind_of_isName hname)) hopening hindex
    hclosing').same ?_
  rintro _ ⟨_, _, t, ht, rfl⟩
  simp only [Shape.map, Tree.erase_node, ht.erase_eq, hlexeme, Word.name]

lemma ReadsBack.boolean {value : Bool} :
    ReadsBack bare statement (.node id l (.boolean value)) := by
  refine .of_operand rfl fun hus _ => ?_
  obtain ⟨token, rfl, htoken, -⟩ := hus.singleton
  have htoken' : token.kind = if value then .trueWord else .falseWord := htoken
  refine (ReadsOperand.boolean ?_).same ?_
  · cases value <;> simp [htoken']
  · rintro _ rfl
    cases value <;> simp [Shape.map, htoken']

lemma ReadsBack.number {value : String} {isFloat : Bool} (hvalue : value ≠ "")
    (hpoint : isFloat = true ↔ '.' ∈ value.toList) :
    ReadsBack bare statement (.node id l (.number value isFloat)) := by
  refine .of_operand rfl fun hus _ => ?_
  obtain ⟨token, rfl, htoken, hlexeme⟩ := hus.singleton
  have htoken' : token.kind = if isFloat then .float else .integer := by
    simp only [htoken, Word.number, hpoint]
  have htext : textOrKind token = value := by
    simp only [textOrKind, hlexeme, Word.number, String.isEmpty_iff, hvalue, if_false]
  refine (ReadsOperand.number ?_).same ?_
  · cases isFloat <;> simp [htoken']
  · rintro _ rfl
    cases isFloat <;> simp [Shape.map, htoken', htext]

lemma ReadsBack.string {value : String} :
    ReadsBack bare statement (.node id l (.string value)) := by
  refine .of_operand rfl fun hus _ => ?_
  obtain ⟨token, rfl, htoken, hlexeme⟩ := hus.singleton
  refine (ReadsOperand.string htoken).same ?_
  rintro _ rfl
  simp only [Shape.map, hlexeme]

lemma ReadsBack.char {value : String} :
    ReadsBack bare statement (.node id l (.char value)) := by
  refine .of_operand rfl fun hus _ => ?_
  obtain ⟨token, rfl, htoken, hlexeme⟩ := hus.singleton
  refine (ReadsOperand.char htoken).same ?_
  rintro _ rfl
  simp only [Shape.map, hlexeme]

/-! ### Lists and blocks -/

lemma arguments_readBack (h : ∀ f ∈ e :: es, ReadsBack bare false f)
    (hus : Says us (Word.separated (Tree.argumentWords bare (e :: es))))
    (hrest : headKind rest = .rightParen) :
    ReadsArguments (fun fs => fs.map Tree.erase = (e :: es).map Tree.erase) (us ++ rest) rest := by
  induction es generalizing e us with
  | nil =>
      rw [Tree.argumentWords, Tree.argumentWords, Word.separated, List.intercalate_singleton] at hus
      have hargument : ReadsExpression e.Same (us ++ rest) rest :=
        (h e (by simp)).value hus (by rw [hrest]; decide)
      refine (ReadsArguments.last hargument hrest).weaken ?_
      rintro _ ⟨t, ht, rfl⟩
      simp only [List.map_cons, List.map_nil, ht.erase_eq]
  | cons f es ih =>
      obtain ⟨vs, comma, vs', rfl, hvs, hcomma, hvs'⟩ := hus.separated
      have hargument : ReadsExpression e.Same (vs ++ comma :: (vs' ++ rest))
          (comma :: (vs' ++ rest)) :=
        (h e (by simp)).value hvs (by rw [headKind, hcomma]; decide)
      have hothers := ih (fun g hg => h g (.tail _ hg)) hvs'
      rw [List.append_assoc, List.cons_append]
      refine (ReadsArguments.more hargument hcomma hothers).weaken ?_
      rintro _ ⟨t, ts, ht, hts, rfl⟩
      simp only [List.map_cons, ht.erase_eq, hts]

lemma ReadsBack.call {callee : String} (hname : IsName callee)
    (h : ∀ e ∈ es, ReadsBack bare false e) :
    ReadsBack bare statement (.node id l (.call callee es)) := by
  refine .of_operand rfl fun {us rest} hus _ => ?_
  obtain ⟨token, _, rfl, htoken, hlexeme, hus⟩ := hus.cons
  obtain ⟨opening, vs, closing, rfl, hopening, hvs, hclosing⟩ := hus.inParens
  have hident : token.kind = .ident := htoken.trans (wordKind_of_isName hname)
  cases es with
  | nil =>
      obtain rfl := hvs.nil
      refine (ReadsOperand.emptyCall hident hopening hclosing).same ?_
      rintro _ rfl
      simp only [Shape.map, hlexeme, Word.name]
  | cons e es =>
      have harguments : ReadsArguments (fun fs => fs.map Tree.erase = (e :: es).map Tree.erase)
          (vs ++ closing :: rest) (closing :: rest) := arguments_readBack h hvs hclosing
      simp only [List.cons_append, List.append_assoc, List.nil_append]
      refine (ReadsOperand.call hident hopening ?_ harguments hclosing).same ?_
      · exact harguments.begins.ne rfl
      · rintro _ ⟨ts, hts, rfl⟩
        simp only [Shape.map, hts, hlexeme, Word.name]

lemma statements_readBack (h : ∀ e ∈ es, ReadsBack bare true e)
    (hus : Says us (Tree.statementWords bare es)) (hrest : headKind rest = .rightBrace) :
    ReadsStatements (fun fs => fs.map Tree.erase = es.map Tree.erase) (us ++ rest) rest := by
  induction es generalizing us with
  | nil =>
      obtain rfl := hus.nil
      refine (ReadsStatements.nil hrest).weaken ?_
      rintro _ rfl
      rfl
  | cons e es ih =>
      obtain ⟨vs, _, rfl, hvs, hus⟩ := hus.append
      obtain ⟨semicolon, vs', rfl, hsemicolon, -, hvs'⟩ := hus.cons
      have hstatement : ReadsExpression e.Same (vs ++ semicolon :: (vs' ++ rest))
          (semicolon :: (vs' ++ rest)) := (h e (by simp)).expression hvs hsemicolon
      have hothers := ih (fun f hf => h f (.tail _ hf)) hvs'
      rw [List.append_assoc, List.cons_append]
      refine (ReadsStatements.separated (hstatement.begins.ne rfl) hstatement hsemicolon
        hothers).weaken ?_
      rintro _ ⟨t, ts, ht, hts, rfl⟩
      simp only [List.map_cons, ht.erase_eq, hts]

lemma ReadsBack.of_block (hne : es ≠ []) (h : ∀ e ∈ es, ReadsBack bare true e) :
    ReadsBack bare statement (.node id l (.block es)) := by
  have hblock : ∀ {us rest}, Says us ((Tree.node id l (.block es)).words bare) →
      ReadsBlock (Tree.node id l (.block es)).Same (us ++ rest) rest := by
    intro us rest hus
    obtain ⟨_, _, rfl, hbegin, hend⟩ := hus.append
    obtain ⟨closing, rfl, hclosing, -⟩ := hend.singleton
    obtain ⟨opening, vs, rfl, hopening, -, hvs⟩ := hbegin.cons
    have hstatements : ReadsStatements (fun fs => fs.map Tree.erase = es.map Tree.erase)
        (vs ++ closing :: rest) (closing :: rest) := statements_readBack h hvs hclosing
    simp only [List.cons_append, List.append_assoc, List.nil_append]
    refine (ReadsBlock.braces hopening ?_ hstatements hclosing).weaken fun t ht =>
      same_of_formed ht ?_
    · refine hstatements.headKind_ne fun fs hfs => ?_
      rintro rfl
      exact hne (List.map_eq_nil_iff.mp hfs.symm)
    · rintro _ ⟨ts, hts, rfl⟩
      simp only [Shape.map, hts]
  exact ⟨fun hus hrest => .of_operand ((hblock hus).operand (hblock hus).headKind_eq)
    (level_ending hrest), fun _ => hblock⟩

/-- **Expressions are read back.** -/
lemma readsBack_of_writable (h : e.Writable statement) : ReadsBack bare statement e := by
  induction h with
  | binary hoperator _ _ hleft hright => exact .binary hoperator hleft hright
  | assignment hname _ hvalue => exact .assignment (.var hname) hname hvalue
  | unary hoperator _ hoperand => exact .unary hoperator hoperand
  | cond _ _ hblock hcondition hthen => exact .cond hcondition hthen hblock
  | condElse _ _ hblock _ hblock' hcondition hthen helse =>
      exact .condElse hcondition hthen hblock helse hblock'
  | binding hname hstated _ hvalue => exact .binding hname hstated hvalue
  | block hne _ hes => exact .of_block hne hes
  | bareReturn => exact .jump (.inl ⟨rfl, rfl⟩)
  | valueReturn _ hvalue => exact .valueReturn hvalue
  | loopControl hoperator => exact .jump (.inr hoperator)
  | call hname _ hes => exact .call hname hes
  | var hname => exact .var hname
  | subscript hname _ hindex => exact .subscript hname hindex
  | boolean => exact .boolean
  | number hvalue hpoint => exact .number hvalue hpoint
  | string => exact .string
  | char => exact .char

/-! ### Functions and declarations -/

/-- A construct without numbers and places. -/
def Construct.erase : Construct → Construct
  | .function p body => .function p.erase body.erase
  | .declaration p => .declaration p.erase

/-- A function without numbers and places. -/
def eraseFunction (f : Prototype × Tree) : Prototype × Tree := (f.1.erase, f.2.erase)

/-- Constructs that are the same but for numbers and places are the same functions and the same
declarations. -/
lemma filterMap_eq_of_erase_eq {cs cs' : List Construct}
    (h : cs'.map Construct.erase = cs.map Construct.erase) :
    (cs'.filterMap Construct.declaration?).map Prototype.erase
        = (cs.filterMap Construct.declaration?).map Prototype.erase ∧
      (cs'.filterMap Construct.function?).map eraseFunction
        = (cs.filterMap Construct.function?).map eraseFunction := by
  have hdeclaration : ∀ c : Construct,
      c.erase.declaration? = c.declaration?.map Prototype.erase := by
    rintro (_ | _) <;> rfl
  have hfunction : ∀ c : Construct, c.erase.function? = c.function?.map eraseFunction := by
    rintro (_ | _) <;> rfl
  have hdeclarations := congrArg (List.filterMap Construct.declaration?) h
  have hfunctions := congrArg (List.filterMap Construct.function?) h
  simp only [List.filterMap_map, Function.comp_def, hdeclaration, hfunction]
    at hdeclarations hfunctions
  simp only [List.map_filterMap, hdeclarations, hfunctions, and_self]

/-- The words of a function or a declaration are read as the same one. -/
lemma item_readBack {s : State} {us rest : List Token} {c : Construct} (hc : c.Writable)
    (hs : s.rest = us ++ rest) (hus : Says us (c.words bare)) :
    ∃ i s₁ c', item .standard s = .ok i s₁ ∧ s₁.rest = rest ∧ rest.length < s.rest.length ∧
      Represents s₁.arena i c' ∧ c'.erase = c.erase := by
  cases c with
  | function p body =>
      obtain ⟨hp, hbody, hblock⟩ := hc
      obtain ⟨vs, vs', rfl, hvs, hvs'⟩ := hus.append
      have hread : ReadsBlock body.Same (vs' ++ rest) rest :=
        (readsBack_of_writable hbody).block hblock hvs'
      obtain ⟨q, hq, hsame⟩ := isPrototype_of_words (vs' ++ rest) hp hvs
      rw [← List.append_assoc, ← hs] at hq
      obtain ⟨t, s₁, hitem, hs₁, ht, hstores⟩ := item_function hq hread
      have hlength := hq.length_lt
      have hshorter := hread.shorter
      refine ⟨_, s₁, .function q t, hitem, hs₁, by omega, .function hstores, ?_⟩
      simp only [Construct.erase, hsame, ht.erase_eq]
  | declaration p =>
      obtain ⟨_, _, rfl, hhead, hend⟩ := hus.append
      obtain ⟨semicolon, rfl, hsemicolon, -⟩ := hend.singleton
      obtain ⟨word, vs, rfl, hword, -, hvs⟩ := hhead.cons
      obtain ⟨q, hq, hsame⟩ := isPrototype_of_words (semicolon :: rest) hc hvs
      have hs' : s.rest = word :: (vs ++ semicolon :: rest) := by simp [hs]
      refine ⟨_, _, .declaration q, item_declaration hs' hword hq hsemicolon, rfl, ?_, .declaration,
        ?_⟩
      · rw [hs']
        simp only [List.length_cons, List.length_append]
        omega
      · simp only [Construct.erase, hsame]

/-- The words of functions and declarations are read as the same ones, in at most as many steps as
there are tokens and one more. -/
lemma items_readBack {n : ℕ} {s : State} {cs : List Construct} (hcs : ∀ c ∈ cs, c.Writable)
    (h : Says s.rest (cs.flatMap (Construct.words bare))) (hn : s.rest.length < n) :
    ∃ is s' cs', itemsWithin .standard n s = .ok is s' ∧
      List.Forall₂ (Represents s'.arena) is cs' ∧
      cs'.map Construct.erase = cs.map Construct.erase := by
  obtain ⟨n, rfl⟩ : ∃ m, n = m + 1 := Nat.exists_eq_succ_of_ne_zero (by omega)
  induction cs generalizing n s with
  | nil => exact ⟨[], s, [], itemsWithin_eq_ok.mpr (.inl ⟨h.nil, rfl, rfl⟩), .nil, rfl⟩
  | cons c cs ih =>
      obtain ⟨us, rest, hs, hus, hrest⟩ := h.append
      obtain ⟨i, s₁, c', hitem, rfl, hshorter, hrepresents, herase⟩ :=
        item_readBack (hcs c (.head _)) hs hus
      obtain ⟨n, rfl⟩ : ∃ m, n = m + 1 := Nat.exists_eq_succ_of_ne_zero (by omega)
      obtain ⟨is, s', cs', his, hothers, herase'⟩ :=
        ih (fun d hd => hcs d (.tail _ hd)) hrest n (by omega)
      obtain ⟨-, -, hextends, -⟩ := items_sound his
      have hne : s.rest ≠ [] := List.ne_nil_of_length_pos (by omega)
      have hrun : itemsWithin .standard (n + 1 + 1) s = .ok (i :: is) s' :=
        itemsWithin_eq_ok.mpr (.inr ⟨hne, i, s₁, is, hitem, his, rfl⟩)
      refine ⟨i :: is, s', c' :: cs', hrun, .cons (hrepresents.mono hextends) hothers, ?_⟩
      simp only [List.map_cons, herase, herase']

/-- **Round trip.** The words of functions and declarations, with parentheses around every part that
can have them, are read as a program with the same functions and declarations, and nothing is
recorded. Only the numbers and the places of expressions, parameters and heads are left open. -/
theorem parse_words (bare : Bool) {cs : List Construct} (hcs : ∀ c ∈ cs, c.Writable)
    {tokens : List Token}
    (htokens : tokens.map Token.word = cs.flatMap (Construct.words bare)) (log : Log) :
    ∃ q, parse tokens log = (some q, log) ∧
      q.declarations.map Prototype.erase
        = (cs.filterMap Construct.declaration?).map Prototype.erase ∧
      q.functions.map (fun f => (f.prototype.erase, (q.body f).erase))
        = (cs.filterMap Construct.function?).map fun f => (f.1.erase, f.2.erase) := by
  have hbudget : (State.ofTokens tokens).rest.length < 8 * (tokens.length + 1) := by
    simp only [State.ofTokens]
    omega
  obtain ⟨is, s', cs', his, hrepresents, herase⟩ :=
    items_readBack (s := .ofTokens tokens) hcs htokens hbudget
  obtain ⟨hdeclarations, hfunctions⟩ := program_of_represents hrepresents
  obtain ⟨hsame, hsame'⟩ := filterMap_eq_of_erase_eq herase
  rw [← hdeclarations] at hsame
  rw [← hfunctions, List.map_map] at hsame'
  exact ⟨_, parse_of_program_eq_ok (program_eq_ok.mpr ⟨is, s', his, rfl, rfl⟩), hsame, hsame'⟩

/-- The constructs of `extern func put(c: &char);` and
`func f(n: int) { put((n)); n = (-(n)); if (n) { return; }; }`. -/
def countdown : List Construct :=
  let n : Tree := .node 0 .start (.var "n")
  let call : Tree := .node 0 .start (.call "put" [n])
  let negation : Tree := .node 0 .start (.unary .minus n)
  let assignment : Tree := .node 0 .start (.binary .equal n negation)
  let arm : Tree := .node 0 .start (.block [.node 0 .start (.jump .returnWord none)])
  let choice : Tree := .node 0 .start (.cond n arm none)
  [.declaration ⟨"put", [⟨"c", ⟨.char, 1⟩, .start⟩], .void, .start⟩,
    .function ⟨"f", [⟨"n", .int, .start⟩], .void, .start⟩
      (.node 0 .start (.block [call, assignment, choice]))]

/-- Its words as tokens, all at one place. -/
def countdownTokens : List Token :=
  (countdown.flatMap (Construct.words true)).map fun w => ⟨w.1, w.2, .start⟩

lemma writable_countdown : ∀ c ∈ countdown, c.Writable := by
  have hname : IsName "n" ∧ IsName "put" ∧ IsName "c" ∧ IsName "f" := by
    simp [IsName, Token.reservedWords]
  obtain ⟨hn, hput, hc, hf⟩ := hname
  have hbody : ∀ e ∈ [Tree.node 0 .start (.call "put" [.node 0 .start (.var "n")]),
      .node 0 .start (.binary .equal (.node 0 .start (.var "n"))
        (.node 0 .start (.unary .minus (.node 0 .start (.var "n"))))),
      .node 0 .start (.cond (.node 0 .start (.var "n"))
        (.node 0 .start (.block [.node 0 .start (.jump .returnWord none)])) none)],
      e.Writable true := by
    simp only [List.forall_mem_cons, List.not_mem_nil, false_imp_iff, implies_true, and_true]
    refine ⟨.call hput (by simpa using .var hn), .assignment hn (.unary (.inl rfl) (.var hn)),
      .cond (.var hn) (.block (by simp) (by simpa using .bareReturn)) rfl⟩
  simp only [countdown, List.forall_mem_cons, List.not_mem_nil, false_imp_iff, implies_true,
    and_true]
  exact ⟨⟨hput, by simpa [Ty.Stated] using hc, .inl rfl⟩,
    ⟨hf, by simpa [Ty.Stated, Ty.int] using hn, .inl rfl⟩, .block (by simp) hbody, rfl⟩

/-- A declaration and a function whose words are read back. -/
theorem parse_countdown_words :
    (∀ c ∈ countdown, c.Writable) ∧
      countdownTokens.map Token.word = countdown.flatMap (Construct.words true) ∧
      ∃ q, parse countdownTokens {} = (some q, {}) ∧
        q.declarations.map Prototype.erase
          = (countdown.filterMap Construct.declaration?).map Prototype.erase ∧
        q.functions.map (fun f => (f.prototype.erase, (q.body f).erase))
          = (countdown.filterMap Construct.function?).map fun f => (f.1.erase, f.2.erase) := by
  have htokens : countdownTokens.map Token.word = countdown.flatMap (Construct.words true) := by
    rfl
  exact ⟨writable_countdown, htokens, parse_words true writable_countdown htokens {}⟩

end Parsing

end Fern
