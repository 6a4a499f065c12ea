import Fern.Proofs.Typing.Parsed
import Fern.Proofs.Typing.Coverage

/-!
The type of a body and the declared return type.

The checker compares every returned value with the declared type, but not the value of the body
itself, which is that of its last statement.

* `Tree.EndsInReturn`: the last thing that an expression does is a `return`.
* `type_of_endsInReturn`: without a complaint such an expression has the declared type.
* `tail_type_may_differ`: a body that does not end in a `return` may be of another type.
* `returned_types`: **what a checked function returns is of its declared type**, and its body has
  the type of the last statement.
-/

namespace Fern

/-- The last thing that the expression does is a `return`, which may stand at the end of a block or
of the first arm of a choice. -/
inductive Tree.EndsInReturn : Tree → Prop
  | jump {id l value} : EndsInReturn (.node id l (.jump .returnWord value))
  | block {id l statements last} (h : EndsInReturn last) :
      EndsInReturn (.node id l (.block (statements ++ [last])))
  | cond {id l condition thenBlock elseBlock} (h : EndsInReturn thenBlock) :
      EndsInReturn (.node id l (.cond condition thenBlock elseBlock))

namespace Typing

/-! ### The type of a `return` -/

section Judgement

variable {callable : String → Option Signature} {declared t : Ty} {Γ Γ' : Scopes Ty}

/-- Statements have the type of the last of them. -/
lemma StatementsHaveType.last_of_append {es : List Tree} {last : Tree}
    (h : StatementsHaveType callable declared Γ (es ++ [last]) t Γ') :
    ∃ Γ₁, HasType callable declared Γ₁ last t Γ' := by
  induction es generalizing Γ with
  | nil =>
      cases h with
      | last hlast => exact ⟨Γ, hlast⟩
  | cons e es ih =>
      generalize hothers : es ++ [last] = others at h ih
      rw [List.cons_append, hothers] at h
      cases h with
      | last => simp at hothers
      | cons _ h => exact ih h

/-- What ends in a `return` has the declared type. -/
lemma HasType.of_endsInReturn {e : Tree} (he : e.EndsInReturn)
    (h : HasType callable declared Γ e t Γ') : t = declared := by
  induction he generalizing t Γ Γ' with
  | jump =>
      cases h with
      | bareReturn void => exact void.symm
      | valueReturn => rfl
  | block _ ih =>
      cases h with
      | block inner =>
          obtain ⟨_, hlast⟩ := inner.last_of_append
          exact ih hlast
  | cond _ ih =>
      cases h with
      | cond _ hthen => exact ih hthen
      | condElse _ hthen _ => exact ih hthen

end Judgement

section Runs

variable {s s' : Checker} {t declared : Ty}

/-- What ends in a `return` gets the declared type in every run without a complaint. -/
lemma type_of_endsInReturn {e : Tree} (he : e.EndsInReturn) (hs : s.Clean)
    (hdeclared : s.returnType = some declared) (hrun : judge e s = .ok (t, s'))
    (hquiet : s'.log.errors = s.log.errors) : t = declared := by
  have hready : Ready (fun name => s.signatures.find? name) declared s :=
    ⟨fun _ => rfl, hdeclared, hs.scopes⟩
  have hresult : ∀ name g, s.signatures.find? name = some g → g.returnType.isInvalid = false :=
    fun _ _ hg => hs.result hg
  exact (hasType_of_judge hresult e s t s' hready hrun hquiet).of_endsInReturn he

/-! ### The type of a block -/

/-- The last of some statements is judged last, and its type is that of the statements. -/
lemma exists_judge_last {es : List Tree} {last : Tree} {b : Bool} {u : Ty}
    (h : judgeStatements b u (es ++ [last]) s = .ok (t, s')) :
    ∃ s₁, s₁.types.size = s.types.size ∧ judge last s₁ = .ok (t, s') := by
  induction es generalizing b u s with
  | nil =>
      obtain ⟨v, s₁, hlast, hnil⟩ := judgeStatements_cons_eq_ok.mp h
      obtain ⟨rfl, rfl⟩ := judgeStatements_nil_eq_ok.mp hnil
      exact ⟨_, congrArg Array.size (warned_types b _ s), hlast⟩
  | cons e es ih =>
      obtain ⟨v, s₁, he, hrest⟩ := judgeStatements_cons_eq_ok.mp h
      obtain ⟨s₂, hsize, hlast⟩ := ih hrest
      have hsize₁ := (judge_types_size he).trans (congrArg Array.size (warned_types b _ s))
      exact ⟨s₂, hsize.trans hsize₁, hlast⟩

/-- In the table a block has the type of its last statement. -/
lemma types_of_block {id : NodeId} {l : Location} {es : List Tree} {last : Tree}
    (hlt : last.id < id) (hid : id < s.types.size)
    (h : judge (.node id l (.block (es ++ [last]))) s = .ok (t, s')) :
    s'.types[id]? = some t ∧ s'.types[last.id]? = some t := by
  obtain ⟨u, s₁, hstatements, rfl, rfl⟩ := judge_block_eq_ok.mp h
  obtain ⟨s₂, hsize, hlast⟩ := exists_judge_last hstatements
  have hsize₁ : s₁.types.size = s.types.size := (judge_types_size hlast).trans hsize
  have hentered : s₁.types[last.id]? = some t := by
    obtain ⟨s₃, rfl⟩ := exists_typed_of_judge hlast
    rw [Checker.size_types_typed] at hsize₁
    exact Checker.getElem?_types_typed (hsize₁ ▸ hlt.trans hid)
  constructor
  · exact Checker.getElem?_types_typed (hsize₁ ▸ hid : id < s₁.types.size)
  · exact (Checker.getElem?_types_typed_ne hlt.ne').trans hentered

end Runs

end Typing

open Typing Parsing

/-! ### Parsed programs -/

namespace Parsing

/-- A block has one statement or more. -/
lemma AreStatements.exists_last {ts ts' : List Token} {es : List Tree}
    (h : AreStatements ts es ts') : ∃ first last, es = first ++ [last] := by
  cases h with
  | last => exact ⟨[], _, rfl⟩
  | closed => exact ⟨[], _, rfl⟩
  | @separated _ e _ _ es =>
      exact ⟨_, _, (List.dropLast_append_getLast (List.cons_ne_nil e es)).symm⟩
  | @adjacent _ e _ es =>
      exact ⟨_, _, (List.dropLast_append_getLast (List.cons_ne_nil e es)).symm⟩

lemma IsProgram.isBlock {ts : List Token} {cs : List Construct} (h : IsProgram ts cs) :
    ∀ f ∈ cs.filterMap Construct.function?, ∃ ts₁ ts₂, IsBlock ts₁ f.2 ts₂ := by
  induction h with
  | empty => simp
  | function _ hbody _ ih =>
      intro f hf
      rcases List.mem_cons.mp hf with rfl | hf
      · exact ⟨_, _, hbody⟩
      · exact ih f hf
  | declaration _ _ _ _ ih => exact ih

end Parsing

/-- The body of a parsed function is a block of one statement or more. -/
lemma exists_statements_of_parse {tokens : List Token} {log : Log} {p : Program}
    (h : (parse tokens log).1 = some p) {f : Function} (hf : f ∈ p.functions) :
    ∃ l es last, p.body f = .node f.body l (.block (es ++ [last])) := by
  obtain ⟨cs, hcs, -, hfunctions⟩ := isProgram_of_parse h
  have hmem : (f.prototype, p.body f) ∈ cs.filterMap Construct.function? :=
    hfunctions ▸ List.mem_map.mpr ⟨f, hf, rfl⟩
  obtain ⟨_, _, hblock⟩ := hcs.isBlock _ hmem
  have hid : (p.body f).id = f.body := p.arena.id_tree f.body
  generalize p.body f = body at hblock hid
  cases hblock with
  | braces _ hstatements _ =>
      obtain ⟨es, last, rfl⟩ := hstatements.exists_last
      obtain rfl := hid
      exact ⟨_, es, last, rfl⟩

/-- In a stored tree a number belongs to one part only. -/
lemma Arena.Stores.eq_of_id_eq {a : Arena} {t u v : Tree} (h : a.Stores t) (hu : t.Contains u)
    (hv : t.Contains v) (hid : u.id = v.id) : u = v := by
  rw [← (h.contains hu).tree_eq, hid, (h.contains hv).tree_eq]

/-- A `return` in a body that is checked without an error has the declared type. -/
lemma BodyRun.types_of_isReturn {p : Program} {f : Function} {types : Array Ty} {s s' : Checker}
    {t : Ty} (h : BodyRun p f types s t s') (hstored : p.arena.Stores (p.body f)) {u : Tree}
    (hu : (p.body f).Contains u) (hreturn : u.isReturn = true) :
    types[u.id]? = some f.prototype.returnType := by
  have hadmits : ∀ v, (p.body f).Contains v →
      Admits (fun i t => i = u.id → t = f.prototype.returnType) (some f.prototype.returnType)
        v := by
    intro v hv t _ ht hid
    rw [hstored.eq_of_id_eq hv hu hid] at ht
    exact (Option.some.inj (ht hreturn)).symm
  have hcovers := (coveredAt _ hadmits s t s' h.clean h.returnType h.run h.quiet).2
  obtain ⟨t', ht', hsame⟩ := hcovers.parts _ (List.mem_singleton_self _) u hu
    (h.size ▸ (hstored.contains hu).id_lt)
  rw [h.kept u hu, ht', hsame rfl]

/-- The tokens of `func f() -> int { true }`. -/
def truthTokens : List Token :=
  [⟨.funcWord, "func", ⟨0, 0⟩⟩, ⟨.ident, "f", ⟨0, 5⟩⟩, ⟨.leftParen, "(", ⟨0, 6⟩⟩,
    ⟨.rightParen, ")", ⟨0, 7⟩⟩, ⟨.arrow, "->", ⟨0, 9⟩⟩, ⟨.ident, "int", ⟨0, 12⟩⟩,
    ⟨.leftBrace, "\x7b", ⟨0, 16⟩⟩, ⟨.trueWord, "true", ⟨0, 18⟩⟩, ⟨.rightBrace, "\x7d", ⟨0, 23⟩⟩]

/-- The program of `truthTokens`. -/
def truthProgram : Program where
  arena := (Arena.empty.add (.boolean true) ⟨0, 18⟩).add (.block [0]) ⟨0, 16⟩
  functions := [⟨⟨"f", [], .int, ⟨0, 5⟩⟩, 1⟩]

/-- The declared type is not enforced on a body without a `return`: `func f() -> int { true }` is
checked without an error, and its body has the type of truth values. -/
theorem tail_type_may_differ :
    ¬ ∀ (tokens : List Token) (log log' out : Log) (p : Program) (types : Array Ty),
      (parse tokens log).1 = some p → typeCheck p log' = .ok (types, out) →
      out.errors = log'.errors → ∀ f ∈ p.functions, f.prototype.returnType ≠ .void →
      ∀ id l es, p.body f = .node id l (.block es) → (∀ e ∈ es, e.isReturn = false) →
        types[f.body]? = some f.prototype.returnType := by
  intro h
  have hparse : (parse truthTokens {}).1 = some truthProgram := by decide +kernel
  have htype := h truthTokens {} {} _ truthProgram _ hparse rfl rfl _ List.mem_cons_self
    (by decide) 1 ⟨0, 16⟩ [.node 0 ⟨0, 18⟩ (.boolean true)] rfl (by simp [Tree.isReturn])
  exact absurd htype (by decide)

/-- **What a checked function returns is of its declared type.** In every parsed program that is
checked without an error, every `return` in a body, however deep, has got the declared type. The
body has got the type of its last statement, which is not compared with the declared type; but it
is the declared type wherever the body ends in a `return`. -/
theorem returned_types (tokens : List Token) (log log' out : Log) (p : Program) (types : Array Ty)
    (hparse : (parse tokens log).1 = some p) (hcheck : typeCheck p log' = .ok (types, out))
    (hquiet : out.errors = log'.errors) (f : Function) (hf : f ∈ p.functions) :
    (∀ u, (p.body f).Contains u → u.isReturn = true →
        types[u.id]? = some f.prototype.returnType) ∧
      (∃ t l es last, p.body f = .node f.body l (.block (es ++ [last])) ∧
        types[f.body]? = some t ∧ types[last.id]? = some t) ∧
      ((p.body f).EndsInReturn → types[f.body]? = some f.prototype.returnType) := by
  obtain ⟨hstored, hlaid⟩ := stored_of_parse hparse
  obtain ⟨s, t, s', hbody⟩ :=
    exists_bodyRun (statedTypesValid_of_parse hparse) hlaid hcheck hquiet hf
  obtain ⟨l, es, last, hblock⟩ := exists_statements_of_parse hparse hf
  have htypes : types[f.body]? = some t ∧ types[last.id]? = some t := by
    have hrun := hbody.run
    have hkept := hbody.kept
    have hown := hstored f hf
    rw [hblock] at hrun hkept hown
    have hmem : last ∈ (Shape.block (es ++ [last])).children := by simp [Shape.children]
    have hlt : last.id < f.body := by
      cases hown with
      | node _ below _ => exact below last hmem
    obtain ⟨hself, hend⟩ := types_of_block hlt (hbody.size ▸ hown.id_lt) hrun
    exact ⟨(hkept _ (.self _)).trans hself, (hkept last (.child hmem (.self last))).trans hend⟩
  refine ⟨fun u hu => hbody.types_of_isReturn (hstored f hf) hu,
    ⟨t, l, es, last, hblock, htypes⟩, fun hends => ?_⟩
  have hsame := type_of_endsInReturn hends hbody.clean hbody.returnType hbody.run hbody.quiet
  rw [htypes.1, hsame]

/-- The tokens of `func f(b: bool) -> int { if b { return 1 } else { return 2 } }`. -/
def choiceTokens : List Token :=
  [⟨.funcWord, "func", ⟨0, 0⟩⟩, ⟨.ident, "f", ⟨0, 5⟩⟩, ⟨.leftParen, "(", ⟨0, 6⟩⟩,
    ⟨.ident, "b", ⟨0, 7⟩⟩, ⟨.colon, ":", ⟨0, 8⟩⟩, ⟨.ident, "bool", ⟨0, 10⟩⟩,
    ⟨.rightParen, ")", ⟨0, 14⟩⟩, ⟨.arrow, "->", ⟨0, 16⟩⟩, ⟨.ident, "int", ⟨0, 19⟩⟩,
    ⟨.leftBrace, "\x7b", ⟨0, 23⟩⟩, ⟨.ifWord, "if", ⟨0, 25⟩⟩, ⟨.ident, "b", ⟨0, 28⟩⟩,
    ⟨.leftBrace, "\x7b", ⟨0, 30⟩⟩, ⟨.returnWord, "return", ⟨0, 32⟩⟩, ⟨.integer, "1", ⟨0, 39⟩⟩,
    ⟨.rightBrace, "\x7d", ⟨0, 41⟩⟩, ⟨.elseWord, "else", ⟨0, 43⟩⟩, ⟨.leftBrace, "\x7b", ⟨0, 48⟩⟩,
    ⟨.returnWord, "return", ⟨0, 50⟩⟩, ⟨.integer, "2", ⟨0, 57⟩⟩, ⟨.rightBrace, "\x7d", ⟨0, 59⟩⟩,
    ⟨.rightBrace, "\x7d", ⟨0, 61⟩⟩]

/-- The function of `choiceTokens`. -/
def choiceFunction : Function := ⟨⟨"f", [⟨"b", .bool, ⟨0, 7⟩⟩], .int, ⟨0, 5⟩⟩, 8⟩

/-- The program of `choiceTokens`. -/
def choiceProgram : Program where
  arena := ⟨#[⟨.var "b", ⟨0, 28⟩⟩, ⟨.number "1" false, ⟨0, 39⟩⟩,
    ⟨.jump .returnWord (some 1), ⟨0, 32⟩⟩, ⟨.block [2], ⟨0, 30⟩⟩, ⟨.number "2" false, ⟨0, 57⟩⟩,
    ⟨.jump .returnWord (some 4), ⟨0, 50⟩⟩, ⟨.block [5], ⟨0, 48⟩⟩, ⟨.cond 0 3 (some 6), ⟨0, 25⟩⟩,
    ⟨.block [7], ⟨0, 23⟩⟩]⟩
  functions := [choiceFunction]

/-- The types of its expressions. -/
def choiceTypes : Array Ty := #[.bool, .int, .int, .int, .int, .int, .int, .int, .int]

/-- The body ends in a choice, the first arm of which ends in a `return`. -/
lemma endsInReturn_choice : (choiceProgram.body choiceFunction).EndsInReturn := by
  have hreturn : choiceProgram.arena.get? 2 = some ⟨.jump .returnWord (some 1), ⟨0, 32⟩⟩ := rfl
  have hthen : choiceProgram.arena.get? 3 = some ⟨.block [2], ⟨0, 30⟩⟩ := rfl
  have hchoice : choiceProgram.arena.get? 7 = some ⟨.cond 0 3 (some 6), ⟨0, 25⟩⟩ := rfl
  have hbody : choiceProgram.arena.get? 8 = some ⟨.block [7], ⟨0, 23⟩⟩ := rfl
  have hends : (choiceProgram.arena.unfold 7 3).EndsInReturn := by
    rw [Arena.unfold_succ_of_get? hthen]
    refine @Tree.EndsInReturn.block _ _ [] _ ?_
    rw [Arena.unfold_succ_of_get? hreturn]
    exact .jump
  change (choiceProgram.arena.unfold 9 8).EndsInReturn
  rw [Arena.unfold_succ_of_get? hbody]
  refine @Tree.EndsInReturn.block _ _ [] _ ?_
  rw [Arena.unfold_succ_of_get? hchoice]
  exact .cond hends

/-- A body that ends in a choice between two values to return is checked without an error, and is of
the declared type. -/
theorem choice_returned_types :
    (parse choiceTokens {}).1 = some choiceProgram ∧
      typeCheck choiceProgram {} = .ok (choiceTypes, {}) ∧
      choiceFunction ∈ choiceProgram.functions ∧
      (∀ u, (choiceProgram.body choiceFunction).Contains u → u.isReturn = true →
        choiceTypes[u.id]? = some .int) ∧
      (choiceProgram.body choiceFunction).EndsInReturn ∧
      choiceTypes[choiceFunction.body]? = some .int := by
  have hparse : (parse choiceTokens {}).1 = some choiceProgram := by decide +kernel
  have hcheck : typeCheck choiceProgram {} = .ok (choiceTypes, {}) := by rfl
  have hmem : choiceFunction ∈ choiceProgram.functions := List.mem_singleton_self _
  obtain ⟨hreturns, -, hend⟩ := returned_types choiceTokens {} {} {} choiceProgram choiceTypes
    hparse hcheck rfl choiceFunction hmem
  exact ⟨hparse, hcheck, hmem, hreturns, endsInReturn_choice, hend endsInReturn_choice⟩

end Fern
