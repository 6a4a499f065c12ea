import Mathlib.Tactic
import Fern.Proofs.Parsing.Numbering
import Fern.Proofs.Parsing.Printing

/-!
The store of a parsed program.

* `Shape.Fits`: the forms that an expression can have in a program, given which of its
  subexpressions are names and which are blocks.
* `grammatical_of_isExpression` and its companions: the trees of the grammar have such forms
  throughout, and state only types that do not stand for a failure.
* `Program.mentioned`: the numbers that occur in a program, each as often as it does.
* `Program.WellStored`: what can be relied on of the store of a program.
* `wellStored_of_parse`: **the store of a parsed program**.
-/

namespace Fern

/-! ### Forms -/

/-- The forms of the expressions of a program. `IsName` and `IsBlock` say which subexpressions are
names and which are blocks. -/
def Shape.Fits {ε : Type} (IsName IsBlock : ε → Prop) : Shape ε → Prop
  | .binary operator left _ =>
    (operator = .equal ∧ IsName left) ∨ operator ∈ Tree.binaryOperators
  | .unary operator _ => operator = .minus ∨ operator = .bang
  | .cond _ thenBlock elseBlock => IsBlock thenBlock ∧ ∀ e ∈ elseBlock, IsBlock e
  | .block statements => statements ≠ []
  | .jump operator value =>
    operator = .returnWord ∨ (operator = .breakWord ∨ operator = .continueWord) ∧ value = none
  | .subscript operand _ => IsName operand
  | _ => True

/-- Whether a form fits depends on what its subexpressions are sent to. -/
lemma Shape.Fits.map {ε δ : Type} {IsName IsBlock : ε → Prop} {IsName' IsBlock' : δ → Prop}
    {f : ε → δ} {s : Shape ε} (h : s.Fits IsName IsBlock)
    (hname : ∀ e ∈ s.children, IsName e → IsName' (f e))
    (hblock : ∀ e ∈ s.children, IsBlock e → IsBlock' (f e)) :
    (s.map f).Fits IsName' IsBlock' := by
  cases s with
  | binary operator left right => exact h.imp_left (And.imp_right (hname left (.head _)))
  | cond condition thenBlock elseBlock =>
      refine ⟨hblock _ (.tail _ (.head _)) h.1, fun e he => ?_⟩
      obtain ⟨e, helse, rfl⟩ := Option.map_eq_some_iff.mp he
      exact hblock e (by simp [children, helse]) (h.2 e helse)
  | block statements => exact List.map_eq_nil_iff.not.mpr h
  | jump operator value => exact h.imp_right (And.imp_right (congrArg (Option.map f)))
  | subscript operand index => exact hname operand (.head _) h
  | _ => exact h

/-- The type that a form states. -/
def Shape.stated? {ε : Type} : Shape ε → Option Ty
  | .binding _ stated _ => stated
  | _ => none

namespace Tree

/-- Every part of the tree has a form that fits. -/
def WellFormed (t : Tree) : Prop := t.Throughout fun shape => shape.Fits (·.name?.isSome) (·.isBlock)

/-- Every part of the tree has a form that fits, and no type that is stated stands for a failure. -/
def Grammatical (t : Tree) : Prop := t.Throughout fun shape =>
  shape.Fits (·.name?.isSome) (·.isBlock) ∧ ∀ u ∈ shape.stated?, u.isInvalid = false

lemma Grammatical.wellFormed {t : Tree} (h : t.Grammatical) : t.WellFormed :=
  fun id l shape ht => (h id l shape ht).1

/-- A form that states no type. -/
lemma Grammatical.node {id : NodeId} {l : Location} {shape : Shape Tree}
    (h : shape.Fits (·.name?.isSome) (·.isBlock)) (hnone : shape.stated? = none)
    (hchildren : ∀ c ∈ shape.children, c.Grammatical) : (Tree.node id l shape).Grammatical :=
  Throughout.node ⟨h, by simp [hnone]⟩ hchildren

end Tree

namespace Parsing

lemma IsTarget.exists_eq {ts ts' : List Token} {t : Tree} (h : IsTarget ts t ts') :
    ∃ id l name, t = .node id l (.var name) := by
  induction h with
  | name => exact ⟨_, _, _, rfl⟩
  | parentheses _ _ _ ih => exact ih

lemma grammatical_var (id : NodeId) (l : Location) (name : String) :
    (Tree.node id l (.var name)).Grammatical :=
  .node trivial rfl (by simp [Shape.children])

/-- No type with a name stands for a failure. -/
lemma IsType.isInvalid {ts ts' : List Token} {t : Ty} (h : IsType ts t ts') :
    t.isInvalid = false := by
  induction h with
  | @named name ts base _ known =>
      have hbases : ∀ b ∈ [Ty.Base.int, .float, .char, .str, .bool],
          (⟨b, 0⟩ : Ty).isInvalid = false := by
        decide
      have hmem : base ∈ [Ty.Base.int, .float, .char, .str, .bool] := by
        obtain ⟨_, _, heq, -⟩ := List.lookup_eq_some_iff.mp known
        have := congrArg (List.map Prod.snd) heq
        simp only [List.map_cons, List.map_nil, List.map_append] at this
        rw [this]
        simp
      exact hbases base hmem
  | reference _ _ ih => exact ih

lemma IsAnnotation.isInvalid {ts ts' : List Token} {stated : Option Ty}
    (h : IsAnnotation ts stated ts') : ∀ u ∈ stated, u.isInvalid = false := by
  cases h with
  | absent => simp
  | stated _ htype => simpa using htype.isInvalid

lemma isBlock_of_isBlock {ts ts' : List Token} {t : Tree} (h : IsBlock ts t ts') : t.isBlock := by
  cases h
  rfl

lemma AreStatements.ne_nil {ts ts' : List Token} {es : List Tree} (h : AreStatements ts es ts') :
    es ≠ [] := by
  cases h <;> exact List.cons_ne_nil _ _

/-- The operators of the layers join any two operands. -/
lemma mem_binaryOperators {layer : ℕ} {k : Token.Kind} (h : k ∈ layerOperators (layer + 1)) :
    k ∈ Tree.binaryOperators := by
  rcases layer with _ | _ | _ | _ | layer <;>
    simp only [layerOperators, List.mem_cons, List.not_mem_nil, or_false] at h
  · rcases h with rfl | rfl <;> decide
  · rcases h with rfl | rfl <;> decide
  · rcases h with rfl | rfl | rfl | rfl <;> decide
  · rcases h with rfl | rfl <;> decide

mutual

/-- The trees of the grammar have forms that fit throughout, and state types of values. -/
lemma grammatical_of_isExpression : ∀ {ts t ts'}, IsExpression ts t ts' → t.Grammatical
  | _, _, _, .chain h => grammatical_of_isChain h
  | _, _, _, .assignment htarget _ hvalue => by
      obtain ⟨id, l, name, rfl⟩ := htarget.exists_eq
      exact .node (.inl ⟨rfl, rfl⟩) rfl
        (Tree.forall_mem_two (grammatical_var id l name) (grammatical_of_isChain hvalue))
  | _, _, _, .definition _ _ hvalue =>
      .node trivial rfl (List.forall_mem_singleton.mpr (grammatical_of_isChain hvalue))

lemma grammatical_of_isChain : ∀ {layer ts t ts'}, IsChain layer ts t ts' → t.Grammatical
  | _, _, _, _, .operand h => grammatical_of_isOperand h
  | _, _, _, _, .lower h => grammatical_of_isChain h
  | _, _, _, _, .join hleft hoperator hright =>
      .node (.inr (mem_binaryOperators hoperator)) rfl (Tree.forall_mem_two
        (grammatical_of_isChain hleft) (grammatical_of_isChain hright))

lemma grammatical_of_isOperand : ∀ {ts t ts'}, IsOperand ts t ts' → t.Grammatical
  | _, _, _, .unary hoperator h =>
      .node hoperator rfl (List.forall_mem_singleton.mpr (grammatical_of_isOperand h))
  | _, _, _, .number _ => .node trivial rfl (by simp [Shape.children])
  | _, _, _, .string _ => .node trivial rfl (by simp [Shape.children])
  | _, _, _, .char _ => .node trivial rfl (by simp [Shape.children])
  | _, _, _, .boolean _ => .node trivial rfl (by simp [Shape.children])
  | _, _, _, .var _ => grammatical_var _ _ _
  | _, _, _, .emptyCall _ _ _ => .node trivial rfl (by simp [Shape.children])
  | _, _, _, .call _ _ h _ => .node trivial rfl (grammatical_of_areArguments h)
  | _, _, _, .subscript _ _ h _ =>
      .node rfl rfl (Tree.forall_mem_two (grammatical_var _ _ _) (grammatical_of_isExpression h))
  | _, _, _, .grouping _ h _ => grammatical_of_isExpression h
  | _, _, _, .block h => grammatical_of_isBlock h
  | _, _, _, .binding _ _ hstated _ h =>
      Tree.Throughout.node ⟨trivial, hstated.isInvalid⟩
        (List.forall_mem_singleton.mpr (grammatical_of_isExpression h))
  | _, _, _, .cond _ hcondition hthen =>
      .node ⟨isBlock_of_isBlock hthen, by simp⟩ rfl (Tree.forall_mem_two
        (grammatical_of_isExpression hcondition) (grammatical_of_isBlock hthen))
  | _, _, _, .condElse _ hcondition hthen _ helse =>
      .node ⟨isBlock_of_isBlock hthen, by simpa using isBlock_of_isBlock helse⟩ rfl
        (List.forall_mem_cons.mpr ⟨grammatical_of_isExpression hcondition,
          Tree.forall_mem_two (grammatical_of_isBlock hthen) (grammatical_of_isBlock helse)⟩)
  | _, _, _, .valueReturn _ h =>
      .node (.inl rfl) rfl (List.forall_mem_singleton.mpr (grammatical_of_isExpression h))
  | _, _, _, .bareReturn _ _ => .node (.inl rfl) rfl (by simp [Shape.children])
  | _, _, _, .loopControl hword => .node (.inr ⟨hword, rfl⟩) rfl (by simp [Shape.children])

lemma grammatical_of_areArguments : ∀ {ts es ts'}, AreArguments ts es ts' →
    ∀ e ∈ es, e.Grammatical
  | _, _, _, .last h => List.forall_mem_singleton.mpr (grammatical_of_isExpression h)
  | _, _, _, .more h _ others =>
      List.forall_mem_cons.mpr ⟨grammatical_of_isExpression h, grammatical_of_areArguments others⟩

lemma grammatical_of_isBlock : ∀ {ts t ts'}, IsBlock ts t ts' → t.Grammatical
  | _, _, _, .braces _ h _ => .node h.ne_nil rfl (grammatical_of_areStatements h)

lemma grammatical_of_areStatements : ∀ {ts es ts'}, AreStatements ts es ts' →
    ∀ e ∈ es, e.Grammatical
  | _, _, _, .last h => List.forall_mem_singleton.mpr (grammatical_of_isExpression h)
  | _, _, _, .closed h _ => List.forall_mem_singleton.mpr (grammatical_of_isExpression h)
  | _, _, _, .separated h _ others =>
      List.forall_mem_cons.mpr ⟨grammatical_of_isExpression h, grammatical_of_areStatements others⟩
  | _, _, _, .adjacent h _ others =>
      List.forall_mem_cons.mpr ⟨grammatical_of_isExpression h, grammatical_of_areStatements others⟩

end

/-- The bodies in a program of the grammar are blocks with such forms throughout. -/
lemma IsProgram.grammatical {ts : List Token} {cs : List Construct} (h : IsProgram ts cs) :
    ∀ f ∈ cs.filterMap Construct.function?, f.2.isBlock ∧ f.2.Grammatical := by
  induction h with
  | empty => simp
  | function _ hbody _ ih =>
      intro f hf
      rcases List.mem_cons.mp hf with rfl | hf
      · exact ⟨isBlock_of_isBlock hbody, grammatical_of_isBlock hbody⟩
      · exact ih f hf
  | declaration _ _ _ _ ih => exact ih

lemma grammatical_of_parse {tokens : List Token} {log : Log} {p : Program}
    (h : (parse tokens log).1 = some p) {f : Function} (hf : f ∈ p.functions) :
    (p.body f).isBlock ∧ (p.body f).Grammatical := by
  obtain ⟨cs, hcs, -, hfunctions⟩ := isProgram_of_parse h
  exact hcs.grammatical (f.prototype, p.body f) (hfunctions ▸ List.mem_map.mpr ⟨f, hf, rfl⟩)

lemma wellFormed_of_parse {tokens : List Token} {log : Log} {p : Program}
    (h : (parse tokens log).1 = some p) {f : Function} (hf : f ∈ p.functions) :
    (p.body f).isBlock ∧ (p.body f).WellFormed :=
  (grammatical_of_parse h hf).imp_right Tree.Grammatical.wellFormed

end Parsing

open Parsing Arena

/-! ### Stored forms -/

section Stored

variable {a : Arena} {t : Tree}

/-- A tree that is a name is stored as one. -/
lemma Arena.Stores.isName (h : a.Stores t) (hname : t.name?.isSome) : a.IsName t.id := by
  obtain ⟨name, hname⟩ := Option.isSome_iff_exists.mp hname
  obtain ⟨id, l, rfl⟩ := eq_var_of_name hname
  cases h with
  | node found _ _ => exact ⟨name, l, found⟩

/-- A tree that is a block is stored as one. -/
lemma Arena.Stores.isBlock (h : a.Stores t) (hblock : t.isBlock) : a.isBlock t.id := by
  cases h with
  | @node id l shape found _ _ =>
      cases shape with
      | block statements =>
          rw [Arena.isBlock]
          simp only [Tree.id, found, Shape.map, Option.any_some, Shape.isBlock]
      | _ => cases hblock

/-- A part of a stored tree is stored under its number, with the form it has. -/
lemma Arena.Stores.fits (h : a.Stores t) (hform : t.WellFormed) {u : Tree} (hu : t.Contains u) :
    ∃ node, a.get? u.id = some node ∧ node.shape.Fits a.IsName (a.isBlock ·) := by
  cases h.contains hu with
  | node found _ children =>
      exact ⟨_, found, (hform _ _ _ hu).map (fun c hc => (children c hc).isName)
        (fun c hc => (children c hc).isBlock)⟩

end Stored

/-! ### The store of a program -/

namespace Program

/-- The numbers that occur in a program: those of all subexpressions of its stored expressions, and
those of the bodies of its functions. -/
def mentioned (p : Program) : List NodeId :=
  (List.range p.arena.size).flatMap p.arena.childrenOf ++ p.functions.map Function.body

/-- What can be relied on of the store of a program with `signs` signs `:=` in it. -/
structure WellStored (p : Program) (signs : ℕ) : Prop where
  /-- Every number that occurs has an expression. -/
  stored : ∀ id ∈ p.mentioned, id < p.arena.size
  /-- Subexpressions have rising numbers, and smaller ones than what they belong to. -/
  rising : ∀ id, (p.arena.childrenOf id ++ [id]).Pairwise (· < ·)
  /-- Each body has its expressions in a run of its own, which goes up to the body itself and holds
  nothing else but numbers that do not occur. The runs follow one another in the order of the
  functions and take up all numbers. -/
  consecutive : p.arena.Consecutive (· ∉ p.mentioned) 0 (p.functions.map Function.body) p.arena.size
  /-- No number occurs twice. -/
  once : p.mentioned.Nodup
  /-- Numbers that do not occur are those of names. -/
  isName_of_notMem : ∀ id, id < p.arena.size → id ∉ p.mentioned → p.arena.IsName id
  /-- There are as many such numbers as signs `:=`. -/
  count_notMem : (List.range p.arena.size).countP (· ∉ p.mentioned) = signs
  /-- Bodies are blocks. -/
  bodies : ∀ f ∈ p.functions, p.arena.isBlock f.body
  /-- All stored expressions have forms that fit. -/
  fits : ∀ id node, p.arena.get? id = some node → node.shape.Fits p.arena.IsName (p.arena.isBlock ·)

end Program

/-- Every number belongs to a part of a body, or to a name. -/
lemma exists_part_of_parse {tokens : List Token} {log : Log} {p : Program}
    (h : (parse tokens log).1 = some p) {id : NodeId} (hid : id < p.arena.size) :
    (∃ f ∈ p.functions, ∃ u, (p.body f).Contains u ∧ u.id = id) ∨ p.arena.IsName id := by
  obtain ⟨loose, -, hnames, -, hparts⟩ := (fillsInTurn_of_parse h).fills.exists_loose
  rcases hparts id (mem_span.mpr ⟨Nat.zero_le id, hid⟩) with ⟨e, he, u, hu, rfl⟩ | hloose
  · obtain ⟨f, hf, rfl⟩ := List.mem_map.mp he
    exact .inl ⟨f, hf, u, hu, rfl⟩
  · exact .inr (hnames id hloose)

lemma Program.map_id_body (p : Program) :
    (p.functions.map p.body).map Tree.id = p.functions.map Function.body := by
  rw [List.map_map]
  exact List.map_congr_left fun f _ => p.arena.id_tree f.body

/-- What occurs in a program is what occurs in the run that its bodies fill. -/
lemma Program.occurring_eq (p : Program) :
    p.arena.occurring 0 (p.functions.map p.body) p.arena.size = p.mentioned := by
  rw [occurring, Program.mentioned, p.map_id_body, span_zero]

/-- The subexpressions of a stored expression have rising numbers below its own. -/
lemma rising_of_parse {tokens : List Token} {log : Log} {p : Program}
    (h : (parse tokens log).1 = some p) (id : NodeId) :
    (p.arena.childrenOf id ++ [id]).Pairwise (· < ·) := by
  have hnone : p.arena.childrenOf id = [] →
      (p.arena.childrenOf id ++ [id]).Pairwise (· < ·) := by
    intro hempty
    rw [hempty]
    exact List.pairwise_singleton _ _
  cases hid : p.arena.get? id with
  | none => exact hnone (by rw [childrenOf, hid])
  | some node =>
      rcases exists_part_of_parse h (lt_size_of_get? hid) with ⟨f, hf, u, hu, rfl⟩ | hname
      · obtain ⟨hstored, hlaid⟩ := stored_of_parse h
        cases (hstored f hf).contains hu with
        | @node id l shape found below _ =>
            obtain ⟨lo, hinner⟩ := hlaid.part (List.mem_map_of_mem hf) hu
            change (p.arena.childrenOf id ++ [id]).Pairwise (· < ·)
            rw [childrenOf_of_get? found, Shape.children_map]
            refine List.pairwise_append.mpr
              ⟨hinner.pairwise, List.pairwise_singleton _ _, fun i hi j hj => ?_⟩
            obtain ⟨c, hc, rfl⟩ := List.mem_map.mp hi
            obtain rfl := List.mem_singleton.mp hj
            exact below c hc
      · exact hnone hname.childrenOf_eq

/-- **The store of a parsed program.** Every number that occurs has an expression; subexpressions
are stored before what they belong to and in the order in which they are written; each function has
its expressions in a run of its own; no expression belongs to two others; what belongs to none are
names, one for each sign `:=`; and all expressions have forms that fit. -/
theorem wellStored_of_parse (tokens : List Token) (log : Log) (p : Program)
    (h : (parse tokens log).1 = some p) : p.WellStored (definitionSigns tokens) := by
  have hfills := fillsInTurn_of_parse h
  obtain ⟨hstored, -⟩ := stored_of_parse h
  obtain ⟨loose, hlength, hnames, hperm, hparts⟩ := hfills.fills.exists_loose
  rw [p.occurring_eq] at hperm
  have hnodup : (p.mentioned ++ loose).Nodup := hperm.nodup_iff.mpr (nodup_span _ _)
  obtain ⟨honce, -, hdisjoint⟩ := List.nodup_append.mp hnodup
  have hapart : ∀ i ∈ loose, i ∉ p.mentioned := fun i hi hmem => hdisjoint i hmem i hi rfl
  refine ⟨fun id hid => ?_, rising_of_parse h, ?_, honce, fun id hid hnot => ?_, ?_, fun f hf => ?_,
    fun id node hnode => ?_⟩
  · exact (mem_span.mp (hperm.mem_iff.mp (List.mem_append_left _ hid))).2
  · rw [← p.map_id_body]
    refine hfills.consecutive fun i hlo hhi hnone => hapart i ?_
    exact (hparts i (mem_span.mpr ⟨hlo, hhi⟩)).resolve_left hnone
  · have hmem := hperm.mem_iff.mpr (mem_span.mpr ⟨Nat.zero_le id, hid⟩)
    exact hnames id ((List.mem_append.mp hmem).resolve_left hnot)
  · rw [← span_zero, ← hperm.countP_eq, List.countP_append, ← hlength]
    have hnone : p.mentioned.countP (· ∉ p.mentioned) = 0 := by
      simp [List.countP_eq_zero]
    have hall : loose.countP (· ∉ p.mentioned) = loose.length := by
      simpa [List.countP_eq_length] using hapart
    rw [hnone, hall, Nat.zero_add]
  · have hblock := (hstored f hf).isBlock (wellFormed_of_parse h hf).1
    rwa [Program.body, p.arena.id_tree] at hblock
  · rcases exists_part_of_parse h (lt_size_of_get? hnode) with ⟨f, hf, u, hu, rfl⟩ | hname
    · obtain ⟨_, hfound, hfits⟩ := (hstored f hf).fits (wellFormed_of_parse h hf).2 hu
      obtain rfl := Option.some.inj (hfound.symm.trans hnode)
      exact hfits
    · obtain ⟨name, l, hfound⟩ := hname
      obtain rfl := Option.some.inj (hfound.symm.trans hnode)
      trivial

/-- The tokens of a function with a definition, a choice and an assignment, and of one that only
returns: `func f() { x := a[0]; if x { x = -1 } else { x } }` and `func g() { return }`. -/
def layoutTokens : List Token :=
  [⟨.funcWord, "func", ⟨0, 0⟩⟩, ⟨.ident, "f", ⟨0, 5⟩⟩, ⟨.leftParen, "(", ⟨0, 6⟩⟩,
    ⟨.rightParen, ")", ⟨0, 7⟩⟩, ⟨.leftBrace, "\x7b", ⟨0, 9⟩⟩, ⟨.ident, "x", ⟨0, 11⟩⟩,
    ⟨.colonEqual, ":=", ⟨0, 13⟩⟩, ⟨.ident, "a", ⟨0, 16⟩⟩, ⟨.leftBracket, "[", ⟨0, 17⟩⟩,
    ⟨.integer, "0", ⟨0, 18⟩⟩, ⟨.rightBracket, "]", ⟨0, 19⟩⟩, ⟨.semicolon, ";", ⟨0, 20⟩⟩,
    ⟨.ifWord, "if", ⟨0, 22⟩⟩, ⟨.ident, "x", ⟨0, 25⟩⟩, ⟨.leftBrace, "\x7b", ⟨0, 27⟩⟩,
    ⟨.ident, "x", ⟨0, 29⟩⟩, ⟨.equal, "=", ⟨0, 31⟩⟩, ⟨.minus, "-", ⟨0, 33⟩⟩,
    ⟨.integer, "1", ⟨0, 34⟩⟩, ⟨.rightBrace, "\x7d", ⟨0, 36⟩⟩, ⟨.elseWord, "else", ⟨0, 38⟩⟩,
    ⟨.leftBrace, "\x7b", ⟨0, 43⟩⟩, ⟨.ident, "x", ⟨0, 45⟩⟩, ⟨.rightBrace, "\x7d", ⟨0, 47⟩⟩,
    ⟨.rightBrace, "\x7d", ⟨0, 49⟩⟩, ⟨.funcWord, "func", ⟨1, 0⟩⟩, ⟨.ident, "g", ⟨1, 5⟩⟩,
    ⟨.leftParen, "(", ⟨1, 6⟩⟩, ⟨.rightParen, ")", ⟨1, 7⟩⟩, ⟨.leftBrace, "\x7b", ⟨1, 9⟩⟩,
    ⟨.returnWord, "return", ⟨1, 11⟩⟩, ⟨.rightBrace, "\x7d", ⟨1, 18⟩⟩]

/-- The program of `layoutTokens`. Nothing refers to the first name, which is that of the
definition. -/
def layoutProgram : Program where
  arena := ⟨#[⟨.var "x", ⟨0, 11⟩⟩, ⟨.var "a", ⟨0, 16⟩⟩, ⟨.number "0" false, ⟨0, 18⟩⟩,
    ⟨.subscript 1 2, ⟨0, 17⟩⟩, ⟨.binding "x" none 3, ⟨0, 11⟩⟩, ⟨.var "x", ⟨0, 25⟩⟩,
    ⟨.var "x", ⟨0, 29⟩⟩, ⟨.number "1" false, ⟨0, 34⟩⟩, ⟨.unary .minus 7, ⟨0, 33⟩⟩,
    ⟨.binary .equal 6 8, ⟨0, 31⟩⟩, ⟨.block [9], ⟨0, 27⟩⟩, ⟨.var "x", ⟨0, 45⟩⟩,
    ⟨.block [11], ⟨0, 43⟩⟩, ⟨.cond 5 10 (some 12), ⟨0, 22⟩⟩, ⟨.block [4, 13], ⟨0, 9⟩⟩,
    ⟨.jump .returnWord none, ⟨1, 11⟩⟩, ⟨.block [15], ⟨1, 9⟩⟩]⟩
  functions := [⟨⟨"f", [], .void, ⟨0, 5⟩⟩, 14⟩, ⟨⟨"g", [], .void, ⟨1, 5⟩⟩, 16⟩]

/-- The store of the program of `layoutTokens`, in which there is one sign `:=`. -/
theorem wellStored_layoutProgram :
    (parse layoutTokens {}).1 = some layoutProgram ∧ definitionSigns layoutTokens = 1 ∧
      layoutProgram.WellStored 1 := by
  have hparse : (parse layoutTokens {}).1 = some layoutProgram := by decide +kernel
  exact ⟨hparse, rfl, wellStored_of_parse layoutTokens {} layoutProgram hparse⟩

end Fern
