import Mathlib.Tactic
import Fern.Proofs.Typing.Parsed

/-!
The names that are declared in a scope.

* `Tree.declared`: the names that an expression declares in the scope in which it stands, from left
  to right. A block takes its own away with it.
* `Declares`: between two stacks of scopes new names have been added to the innermost one, and none
  that it had before was bound anew.
* `HasType.declares`: an expression with a type declares its names, and nothing else.
* `Tree.DeclaresOnce`: no block in an expression declares a name twice.
* `names_declared_once`: **each name is declared once in a block**, in every program that is checked
  without an error.
* `parameter_names_may_repeat`: the parameters of a function are not held to this.
-/

namespace Fern

namespace Tree

mutual

/-- The names that an expression declares in the scope in which it stands. -/
def declared : Tree → List String
  | missing _ => []
  | node _ _ (.binary _ left right) => declared left ++ declared right
  | node _ _ (.unary _ operand) => declared operand
  | node _ _ (.cond condition thenBlock none) => declared condition ++ declared thenBlock
  | node _ _ (.cond condition thenBlock (some elseBlock)) =>
    declared condition ++ declared thenBlock ++ declared elseBlock
  | node _ _ (.binding name _ value) => declared value ++ [name]
  | node _ _ (.block _) => []
  | node _ _ (.jump _ none) => []
  | node _ _ (.jump _ (some value)) => declared value
  | node _ _ (.call _ arguments) => declaredBy arguments
  | node _ _ (.subscript operand index) => declared operand ++ declared index
  | node _ _ (.var _) | node _ _ (.boolean _) | node _ _ (.number _ _) | node _ _ (.string _)
  | node _ _ (.char _) => []

/-- The names that expressions declare one after the other. -/
def declaredBy : List Tree → List String
  | [] => []
  | t :: ts => declared t ++ declaredBy ts

end

/-- No block in the expression declares a name twice. -/
def DeclaresOnce (t : Tree) : Prop :=
  t.Throughout fun shape => ∀ es, shape = .block es → (declaredBy es).Nodup

end Tree

namespace Typing

/-! ### Scopes -/

/-- A name that has no binding is added at the end. -/
lemma set_eq_append {α : Type} {bs : Bindings α} {name : String} (a : α)
    (h : bs.find? name = none) : bs.set name a = bs ++ [(name, a)] := by
  induction bs with
  | nil => rfl
  | cons b bs ih =>
      obtain ⟨n, b⟩ := b
      by_cases hn : n = name
      · simp [Bindings.find?, hn] at h
      · simp only [Bindings.find?, hn, if_false] at h
        simp only [Bindings.set, hn, if_false, ih h, List.cons_append]

lemma notMem_of_find?_eq_none {α : Type} {bs : Bindings α} {name : String}
    (h : bs.find? name = none) : name ∉ bs.map Prod.fst := by
  induction bs with
  | nil => simp
  | cons b bs ih =>
      obtain ⟨n, b⟩ := b
      by_cases hn : n = name
      · simp [Bindings.find?, hn] at h
      · simp only [Bindings.find?, hn, if_false] at h
        simp only [List.map_cons, List.mem_cons, not_or]
        exact ⟨fun heq => hn heq.symm, ih h⟩

/-- From `Γ` to `Γ'` the innermost scope, in which no name is bound twice, has got bindings of the
names `names` after those it had, and still none is bound twice. -/
def Declares (names : List String) (Γ Γ' : Scopes Ty) : Prop :=
  ∀ bs outer, Γ = bs :: outer → (bs.map Prod.fst).Nodup →
    ∃ new : Bindings Ty, Γ' = (bs ++ new) :: outer ∧ new.map Prod.fst = names ∧
      ((bs ++ new).map Prod.fst).Nodup

namespace Declares

variable {Γ Γ₁ Γ' : Scopes Ty} {names others : List String}

lemma none (Γ : Scopes Ty) : Declares [] Γ Γ :=
  fun bs outer h hbs => ⟨[], by simpa using h, rfl, by simpa using hbs⟩

lemma append (h : Declares names Γ Γ₁) (h' : Declares others Γ₁ Γ') :
    Declares (names ++ others) Γ Γ' := by
  intro bs outer hΓ hbs
  obtain ⟨new, hΓ₁, hnew, hnodup⟩ := h bs outer hΓ hbs
  obtain ⟨new', hΓ', hnew', hnodup'⟩ := h' _ _ hΓ₁ hnodup
  rw [List.append_assoc] at hΓ' hnodup'
  exact ⟨new ++ new', hΓ', by rw [List.map_append, hnew, hnew'], hnodup'⟩

/-- A name that is not bound yet in the innermost scope may be declared. -/
lemma bind {name : String} (h : Declares names Γ Γ') (hfresh : Γ'.localLookup name = Option.none)
    (t : Ty) : Declares (names ++ [name]) Γ (Γ'.bind name t) := by
  intro bs outer hΓ hbs
  obtain ⟨new, rfl, hnew, hnodup⟩ := h bs outer hΓ hbs
  have hset := set_eq_append t hfresh
  refine ⟨new ++ [(name, t)], ?_, by simp [hnew], ?_⟩
  · rw [Scopes.bind, hset, List.append_assoc]
  · rw [← List.append_assoc, List.map_append, List.map_singleton, ← List.concat_eq_append]
    rw [List.nodup_concat]
    exact ⟨notMem_of_find?_eq_none hfresh, hnodup⟩

/-- What is declared in a scope of its own is declared once. -/
lemma nodup (h : Declares names Γ.push Γ') : names.Nodup := by
  obtain ⟨new, -, rfl, hnodup⟩ := h [] Γ rfl List.nodup_nil
  exact hnodup

end Declares

/-! ### Derivations -/

section Judgement

variable {callable : String → Option Signature} {returned : Ty}

mutual

/-- An expression with a type declares its names. -/
lemma HasType.declares : ∀ {Γ e t Γ'}, HasType callable returned Γ e t Γ' →
    Declares e.declared Γ Γ'
  | Γ, _, _, _, .number | Γ, _, _, _, .boolean | Γ, _, _, _, .string | Γ, _, _, _, .char
  | Γ, _, _, _, .var _ | Γ, _, _, _, .block _ | Γ, _, _, _, .bareReturn _ => .none Γ
  | _, _, t, _, .binding hvalue _ fresh => hvalue.declares.bind fresh t
  | _, _, _, _, .cond hcond hthen => hcond.declares.append hthen.declares
  | _, _, _, _, .condElse hcond hthen helse =>
      (hcond.declares.append hthen.declares).append helse.declares
  | _, _, _, _, .binary hleft hright _ => hleft.declares.append hright.declares
  | _, _, _, _, .unary hoperand _ => hoperand.declares
  | _, _, _, _, .valueReturn hvalue => hvalue.declares
  | _, _, _, _, .call _ harguments => harguments.declares
  | _, _, _, _, .subscript hoperand hindex _ => hoperand.declares.append hindex.declares

lemma StatementsHaveType.declares : ∀ {Γ es t Γ'}, StatementsHaveType callable returned Γ es t Γ' →
    Declares (Tree.declaredBy es) Γ Γ'
  | Γ, _, _, _, .empty => .none Γ
  | _, _, _, Γ', .last hlast => hlast.declares.append (.none Γ')
  | _, _, _, _, .cons hfirst hothers => hfirst.declares.append hothers.declares

lemma ArgumentsHaveTypes.declares : ∀ {Γ es ts Γ'}, ArgumentsHaveTypes callable returned Γ es ts Γ' →
    Declares (Tree.declaredBy es) Γ Γ'
  | Γ, _, _, _, .nil => .none Γ
  | _, _, _, _, .cons hfirst hothers => hfirst.declares.append hothers.declares

end

mutual

/-- No block in an expression with a type declares a name twice. -/
lemma HasType.declaresOnce : ∀ {Γ e t Γ'}, HasType callable returned Γ e t Γ' → e.DeclaresOnce
  | _, _, _, _, .number | _, _, _, _, .boolean | _, _, _, _, .string | _, _, _, _, .char
  | _, _, _, _, .var _ | _, _, _, _, .bareReturn _ => .node (by simp) (by simp [Shape.children])
  | _, _, _, _, .block inner =>
      .node (fun _ h => Shape.block.inj h ▸ inner.declares.nodup) inner.declaresOnce
  | _, _, _, _, .binding hvalue _ _ =>
      .node (by simp) (List.forall_mem_singleton.mpr hvalue.declaresOnce)
  | _, _, _, _, .cond hcond hthen =>
      .node (by simp) (Tree.forall_mem_two hcond.declaresOnce hthen.declaresOnce)
  | _, _, _, _, .condElse hcond hthen helse =>
      .node (by simp) (List.forall_mem_cons.mpr
        ⟨hcond.declaresOnce, Tree.forall_mem_two hthen.declaresOnce helse.declaresOnce⟩)
  | _, _, _, _, .binary hleft hright _ =>
      .node (by simp) (Tree.forall_mem_two hleft.declaresOnce hright.declaresOnce)
  | _, _, _, _, .unary hoperand _ =>
      .node (by simp) (List.forall_mem_singleton.mpr hoperand.declaresOnce)
  | _, _, _, _, .valueReturn hvalue =>
      .node (by simp) (List.forall_mem_singleton.mpr hvalue.declaresOnce)
  | _, _, _, _, .call _ harguments => .node (by simp) harguments.declaresOnce
  | _, _, _, _, .subscript hoperand hindex _ =>
      .node (by simp) (Tree.forall_mem_two hoperand.declaresOnce hindex.declaresOnce)

lemma StatementsHaveType.declaresOnce : ∀ {Γ es t Γ'},
    StatementsHaveType callable returned Γ es t Γ' → ∀ e ∈ es, e.DeclaresOnce
  | _, _, _, _, .empty => by simp
  | _, _, _, _, .last hlast => List.forall_mem_singleton.mpr hlast.declaresOnce
  | _, _, _, _, .cons hfirst hothers =>
      List.forall_mem_cons.mpr ⟨hfirst.declaresOnce, hothers.declaresOnce⟩

lemma ArgumentsHaveTypes.declaresOnce : ∀ {Γ es ts Γ'},
    ArgumentsHaveTypes callable returned Γ es ts Γ' → ∀ e ∈ es, e.DeclaresOnce
  | _, _, _, _, .nil => by simp
  | _, _, _, _, .cons hfirst hothers =>
      List.forall_mem_cons.mpr ⟨hfirst.declaresOnce, hothers.declaresOnce⟩

end

end Judgement

end Typing

open Typing

/-- **Each name is declared once in a block.** In every parsed program that is checked without an
error, the names that a block declares, in its statements and in all operands, conditions and
arguments in these, are distinct. -/
theorem names_declared_once (tokens : List Token) (log log' : Log) (p : Program)
    (hparse : (parse tokens log).1 = some p) (haccepted : p.Accepted log') (f : Function)
    (hf : f ∈ p.functions) : (p.body f).DeclaresOnce := by
  have htyped := (accepted_iff_wellTyped (statedTypesValid_of_parse hparse) log').mp haccepted
  obtain ⟨earlier, later, hsplit⟩ := List.append_of_mem hf
  obtain ⟨t, Γ, hbody⟩ := htyped.bodies earlier f later hsplit
  exact hbody.declaresOnce

/-- The tokens of `func f() { let b = (let c = 1) + c; { let b = true } }`. -/
def nestedTokens : List Token :=
  [⟨.funcWord, "func", ⟨0, 0⟩⟩, ⟨.ident, "f", ⟨0, 5⟩⟩, ⟨.leftParen, "(", ⟨0, 6⟩⟩,
    ⟨.rightParen, ")", ⟨0, 7⟩⟩, ⟨.leftBrace, "\x7b", ⟨0, 9⟩⟩, ⟨.letWord, "let", ⟨0, 11⟩⟩,
    ⟨.ident, "b", ⟨0, 15⟩⟩, ⟨.equal, "=", ⟨0, 17⟩⟩, ⟨.leftParen, "(", ⟨0, 19⟩⟩,
    ⟨.letWord, "let", ⟨0, 20⟩⟩, ⟨.ident, "c", ⟨0, 24⟩⟩, ⟨.equal, "=", ⟨0, 26⟩⟩,
    ⟨.integer, "1", ⟨0, 28⟩⟩, ⟨.rightParen, ")", ⟨0, 29⟩⟩, ⟨.plus, "+", ⟨0, 31⟩⟩,
    ⟨.ident, "c", ⟨0, 33⟩⟩, ⟨.semicolon, ";", ⟨0, 34⟩⟩, ⟨.leftBrace, "\x7b", ⟨0, 36⟩⟩,
    ⟨.letWord, "let", ⟨0, 38⟩⟩, ⟨.ident, "b", ⟨0, 42⟩⟩, ⟨.equal, "=", ⟨0, 44⟩⟩,
    ⟨.trueWord, "true", ⟨0, 46⟩⟩, ⟨.rightBrace, "\x7d", ⟨0, 51⟩⟩, ⟨.rightBrace, "\x7d", ⟨0, 53⟩⟩]

/-- The function of `nestedTokens`. -/
def nestedFunction : Function := ⟨⟨"f", [], .void, ⟨0, 5⟩⟩, 8⟩

/-- The program of `nestedTokens`. -/
def nestedProgram : Program where
  arena := ⟨#[⟨.number "1" false, ⟨0, 28⟩⟩, ⟨.binding "c" none 0, ⟨0, 20⟩⟩, ⟨.var "c", ⟨0, 33⟩⟩,
    ⟨.binary .plus 1 2, ⟨0, 31⟩⟩, ⟨.binding "b" none 3, ⟨0, 11⟩⟩, ⟨.boolean true, ⟨0, 46⟩⟩,
    ⟨.binding "b" none 5, ⟨0, 38⟩⟩, ⟨.block [6], ⟨0, 36⟩⟩, ⟨.block [4, 7], ⟨0, 9⟩⟩]⟩
  functions := [nestedFunction]

/-- Names declared in an operand and in a block within a block. -/
theorem nested_names_declared_once :
    (parse nestedTokens {}).1 = some nestedProgram ∧ nestedProgram.Accepted {} ∧
      (nestedProgram.body nestedFunction).DeclaresOnce := by
  have hparse : (parse nestedTokens {}).1 = some nestedProgram := by decide +kernel
  have haccepted : nestedProgram.Accepted {} := ⟨_, _, rfl, rfl⟩
  exact ⟨hparse, haccepted, names_declared_once nestedTokens {} {} nestedProgram hparse haccepted
    nestedFunction (List.mem_singleton_self _)⟩

/-- The tokens of `func f(a: int, a: bool) -> bool { a }`. -/
def repeatedTokens : List Token :=
  [⟨.funcWord, "func", ⟨0, 0⟩⟩, ⟨.ident, "f", ⟨0, 5⟩⟩, ⟨.leftParen, "(", ⟨0, 6⟩⟩,
    ⟨.ident, "a", ⟨0, 7⟩⟩, ⟨.colon, ":", ⟨0, 8⟩⟩, ⟨.ident, "int", ⟨0, 10⟩⟩,
    ⟨.comma, ",", ⟨0, 13⟩⟩, ⟨.ident, "a", ⟨0, 15⟩⟩, ⟨.colon, ":", ⟨0, 16⟩⟩,
    ⟨.ident, "bool", ⟨0, 18⟩⟩, ⟨.rightParen, ")", ⟨0, 22⟩⟩, ⟨.arrow, "->", ⟨0, 24⟩⟩,
    ⟨.ident, "bool", ⟨0, 27⟩⟩, ⟨.leftBrace, "\x7b", ⟨0, 32⟩⟩, ⟨.ident, "a", ⟨0, 34⟩⟩,
    ⟨.rightBrace, "\x7d", ⟨0, 36⟩⟩]

/-- The program of `repeatedTokens`. -/
def repeatedProgram : Program where
  arena := ⟨#[⟨.var "a", ⟨0, 34⟩⟩, ⟨.block [0], ⟨0, 32⟩⟩]⟩
  functions := [⟨⟨"f", [⟨"a", .int, ⟨0, 7⟩⟩, ⟨"a", .bool, ⟨0, 15⟩⟩], .bool, ⟨0, 5⟩⟩, 1⟩]

/-- A parameter takes the place of an earlier one of its name without an error: this is so in
`func f(a: int, a: bool) -> bool { a }`, where `a` is the second of them. -/
theorem parameter_names_may_repeat :
    ¬ ∀ (tokens : List Token) (log log' : Log) (p : Program), (parse tokens log).1 = some p →
      p.Accepted log' → ∀ f ∈ p.functions,
        (f.prototype.parameters.map Parameter.name).Nodup ∧ (p.body f).DeclaresOnce := by
  intro h
  have hparse : (parse repeatedTokens {}).1 = some repeatedProgram := by decide +kernel
  obtain ⟨hnodup, -⟩ := h repeatedTokens {} {} repeatedProgram hparse ⟨_, _, rfl, rfl⟩ _
    List.mem_cons_self
  exact absurd hnodup (by decide)

end Fern
