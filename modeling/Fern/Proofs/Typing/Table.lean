import Fern.Proofs.Typing.Coverage
import Fern.Proofs.Typing.Parsed

/-!
No expression is left without a type silently.

* `Checker.Typed`: an expression has got the type of a value.
* `exists_judge`, `exists_typeCheck_of_parse`: where no part is missing, as in a parsed program, the
  checker gives a result.
* `judge_types_every_part`: **without a complaint, every part of an expression has a type**.
-/

namespace Fern

namespace Typing

/-- The expression `i` has got the type of a value. -/
def Checker.Typed (s : Checker) (i : NodeId) : Prop :=
  ∃ t, s.types[i]? = some t ∧ t.isInvalid = false

/-! ### The checker gives a result -/

lemma exists_judgeStatements {es : List Tree}
    (ih : ∀ x ∈ es, ∀ s, ∃ t s', judge x s = .ok (t, s')) :
    ∀ b u s, ∃ t s', judgeStatements b u es s = .ok (t, s') := by
  induction es with
  | nil => exact fun _ u s => ⟨u, s, judgeStatements_nil_eq_ok.mpr ⟨rfl, rfl⟩⟩
  | cons e es ihes =>
      intro b u s
      obtain ⟨v, s₁, he⟩ := ih e (by simp) (s.warned b e.location)
      obtain ⟨t, s', hes⟩ := ihes (fun x hx => ih x (by simp [hx])) e.isReturn v s₁
      exact ⟨t, s', judgeStatements_cons_eq_ok.mpr ⟨v, s₁, he, hes⟩⟩

lemma exists_judgeArguments (callee : String) {es : List Tree}
    (ih : ∀ x ∈ es, ∀ s, ∃ t s', judge x s = .ok (t, s')) {ps : List Ty}
    (hcount : ps.length = es.length) :
    ∀ s, ∃ b s', judgeArguments callee ps es s = .ok (b, s') := by
  induction es generalizing ps with
  | nil =>
      obtain rfl : ps = [] := List.eq_nil_of_length_eq_zero hcount
      exact fun s => ⟨true, s, judgeArguments_nil_eq_ok.mpr ⟨rfl, rfl⟩⟩
  | cons e es ihes =>
      cases ps with
      | nil => cases hcount
      | cons p ps =>
          intro s
          obtain ⟨u, s₁, he⟩ := ih e (by simp) s
          by_cases hstop : (u.isInvalid || u ≠ p) = true
          · refine ⟨false, s₁.complained (argumentComplaint callee p u e.location),
              judgeArguments_cons_eq_ok.mpr ⟨u, s₁, he, ?_⟩⟩
            rw [if_pos hstop]
            exact ⟨rfl, rfl⟩
          · obtain ⟨b, s', hes⟩ := ihes (fun x hx => ih x (by simp [hx])) (by simpa using hcount)
              (s₁.complained (argumentComplaint callee p u e.location))
            refine ⟨b, s', judgeArguments_cons_eq_ok.mpr ⟨u, s₁, he, ?_⟩⟩
            rw [if_neg hstop]
            exact hes

/-- Where no part of an expression is missing, the checker gives it a type, valid or not. -/
lemma exists_judge {e : Tree} (h : e.Complete) : ∀ s, ∃ t s', judge e s = .ok (t, s') := by
  induction e using Tree.childInduction with
  | missing id => exact absurd h (Tree.not_complete_missing id)
  | node id l shape ih =>
      intro s
      replace ih : ∀ c ∈ shape.children, ∀ s, ∃ t s', judge c s = .ok (t, s') :=
        fun c hc => ih c hc (h.child hc)
      cases shape with
      | number => exact ⟨_, _, judge_number_eq_ok.mpr ⟨rfl, rfl⟩⟩
      | boolean => exact ⟨_, _, judge_boolean_eq_ok.mpr ⟨rfl, rfl⟩⟩
      | string => exact ⟨_, _, judge_string_eq_ok.mpr ⟨rfl, rfl⟩⟩
      | char => exact ⟨_, _, judge_char_eq_ok.mpr ⟨rfl, rfl⟩⟩
      | var name =>
          cases hlookup : s.scopes.lookup name with
          | some u => exact ⟨_, _, (judge_bound_eq_ok hlookup).mpr ⟨rfl, rfl⟩⟩
          | none => exact ⟨_, _, (judge_unbound_eq_ok hlookup).mpr ⟨rfl, rfl⟩⟩
      | binding name stated value =>
          obtain ⟨u, s₁, hv⟩ := ih value (by simp [Shape.children]) s
          exact ⟨_, _, judge_binding_eq_ok.mpr ⟨u, s₁, hv, rfl, rfl⟩⟩
      | block statements =>
          obtain ⟨u, s₁, hb⟩ := exists_judgeStatements ih false .void s.opened
          exact ⟨_, _, judge_block_eq_ok.mpr ⟨u, s₁, hb, rfl, rfl⟩⟩
      | cond condition thenBlock elseBlock =>
          obtain ⟨c, s₁, hc⟩ := ih condition (by simp [Shape.children]) s
          obtain ⟨u, s₂, ht⟩ := ih thenBlock (by simp [Shape.children])
            (s₁.complained (conditionComplaint c condition.location))
          cases elseBlock with
          | none => exact ⟨_, _, judge_cond_eq_ok.mpr ⟨c, s₁, hc, u, s₂, ht, rfl, rfl⟩⟩
          | some elseBlock =>
              obtain ⟨e, s₃, he⟩ := ih elseBlock (by simp [Shape.children]) s₂
              exact ⟨_, _, judge_condElse_eq_ok.mpr ⟨c, s₁, hc, u, s₂, ht, e, s₃, he, rfl, rfl⟩⟩
      | binary operator left right =>
          obtain ⟨a, s₁, ha⟩ := ih left (by simp [Shape.children]) s
          obtain ⟨b, s₂, hb⟩ := ih right (by simp [Shape.children]) s₁
          exact ⟨_, _, judge_binary_eq_ok.mpr ⟨a, s₁, ha, b, s₂, hb, rfl, rfl⟩⟩
      | unary operator operand =>
          obtain ⟨a, s₁, ha⟩ := ih operand (by simp [Shape.children]) s
          exact ⟨_, _, judge_unary_eq_ok.mpr ⟨a, s₁, ha, rfl, rfl⟩⟩
      | jump operator value =>
          by_cases hop : operator = .returnWord
          · subst hop
            cases value with
            | none => exact ⟨_, _, judge_bareReturn_eq_ok.mpr ⟨rfl, rfl⟩⟩
            | some value =>
                obtain ⟨a, s₁, ha⟩ := ih value (by simp [Shape.children]) s
                exact ⟨_, _, judge_valueReturn_eq_ok.mpr ⟨a, s₁, ha, rfl, rfl⟩⟩
          · exact ⟨_, _, (judge_loopJump_eq_ok hop).mpr ⟨rfl, rfl⟩⟩
      | call callee arguments =>
          cases hg : s.signatures.find? callee with
          | none => exact ⟨_, _, (judge_unknownCall_eq_ok hg).mpr ⟨rfl, rfl⟩⟩
          | some g =>
              by_cases hcount : g.parameters.length = arguments.length
              · obtain ⟨b, s₁, ha⟩ := exists_judgeArguments callee ih hcount s
                exact ⟨_, _, (judge_call_eq_ok hg hcount).mpr ⟨b, s₁, ha, rfl, rfl⟩⟩
              · exact ⟨_, _, (judge_miscountedCall_eq_ok hg hcount).mpr ⟨rfl, rfl⟩⟩
      | subscript operand index =>
          obtain ⟨a, s₁, ha⟩ := ih operand (by simp [Shape.children]) s
          obtain ⟨b, s₂, hb⟩ := ih index (by simp [Shape.children]) s₁
          exact ⟨_, _, judge_subscript_eq_ok.mpr ⟨a, s₁, ha, b, s₂, hb, rfl, rfl⟩⟩

/-- Functions with complete bodies can be checked. -/
lemma exists_checkFunctions {fs : List (Prototype × Tree)} (hfs : ∀ f ∈ fs, f.2.Complete) :
    ∀ s, ∃ s', checkFunctions fs s = .ok ((), s') := by
  induction fs with
  | nil => exact fun s => ⟨s, pure_eq_ok.mpr ⟨rfl, rfl⟩⟩
  | cons f fs ih =>
      intro s
      obtain ⟨t, s₁, hbody⟩ := exists_judge (hfs f (by simp)) (s.entered f.1)
      obtain ⟨s', hrest⟩ := ih (fun g hg => hfs g (by simp [hg])) s₁.exited
      exact ⟨s', bind_eq_ok.mpr ⟨(), s₁.exited, checkFunction_eq_ok.mpr ⟨t, s₁, hbody, rfl⟩, hrest⟩⟩

/-! ### All that is below an expression -/

/-- A run without a complaint on the tree of a number gives all that is below it the types of
values. -/
lemma typed_of_reaches {a : Arena} {s s' : Checker} {id i : NodeId} {t : Ty} (hs : s.Clean)
    (hsize : a.size ≤ s.types.size) (hrun : judge (a.tree id) s = .ok (t, s'))
    (hquiet : s'.log.errors = s.log.errors) (hi : a.Reaches id i) : s'.Typed i := by
  have hcovers :=
    (coveredAt (a.tree id) (fun _ _ => admits_valid s.returnType _) _ _ _ hs rfl hrun hquiet).2
  have hcomplete : (a.tree id).Complete := hcovers.complete _ (by simp)
  obtain ⟨hlt, u, hu, rfl⟩ := Arena.exists_contains_of_reaches hi hcomplete
  exact hcovers.parts (a.tree id) (by simp) u hu (lt_of_lt_of_le hlt hsize)

end Typing

open Typing Parsing

/-- A program with complete bodies can be checked. -/
lemma exists_typeCheck {p : Program} (h : ∀ f ∈ p.functions, (p.body f).Complete) (log : Log) :
    ∃ types out, typeCheck p log = .ok (types, out) := by
  have hbodies : ∀ f ∈ p.bodies, f.2.Complete := by
    intro f hf
    obtain ⟨g, hg, rfl⟩ := List.mem_map.mp hf
    exact h g hg
  obtain ⟨s, hfs⟩ := exists_checkFunctions hbodies
    (p.declarations.foldl Checker.registered (.start p.arena.size log))
  have hprogram : checkProgram p (.start p.arena.size log) = .ok ((), s) :=
    bind_eq_ok.mpr ⟨(), _, checkDeclarations_eq_ok.mpr rfl, hfs⟩
  exact ⟨s.types, s.log, typeCheck_eq_ok.mpr ⟨s, hprogram, rfl, rfl⟩⟩

/-- A parsed program can be checked. -/
lemma exists_typeCheck_of_parse {tokens : List Token} {log : Log} {p : Program}
    (h : (parse tokens log).1 = some p) (log' : Log) :
    ∃ types out, typeCheck p log' = .ok (types, out) :=
  exists_typeCheck (fun f hf => ((stored_of_parse h).1 f hf).complete) log'

/-- **Without a complaint, every part of an expression has a type.** In a store where no expression
contains itself, and from a clean state, the checker gives a type to every expression with all its
parts in the store; if this is the type of a failure, an error was recorded; and if no error was
recorded, then the state is clean again, and all that is below the expression has got the type of a
value, if the table of types has room for every expression of the store, as it has in the check of a
program. So a parsed program that is checked without an error has such types below all bodies. -/
theorem judge_types_every_part :
    (∀ (a : Arena) (s : Checker) (id : NodeId), a.Acyclic → s.Clean →
      ((∀ i, a.Reaches id i → i < a.size) → ∃ t s', judge (a.tree id) s = .ok (t, s')) ∧
      ∀ t s', judge (a.tree id) s = .ok (t, s') →
        (t.isInvalid = true → s.log.errors.length < s'.log.errors.length) ∧
        (s'.log.errors = s.log.errors → s'.Clean ∧
          (a.size ≤ s.types.size → ∀ i, a.Reaches id i → s'.Typed i))) ∧
    ∀ (tokens : List Token) (log log' : Log) (p : Program), (parse tokens log).1 = some p →
      ∃ types out, typeCheck p log' = .ok (types, out) ∧
        (out.errors = log'.errors → ∀ f ∈ p.functions, ∀ i, p.arena.Reaches f.body i →
          ∃ t, types[i]? = some t ∧ t.isInvalid = false) := by
  constructor
  · intro a s id hacyclic hs
    refine ⟨fun hstored => exists_judge (Arena.complete_tree hacyclic hstored) s, ?_⟩
    intro t s' hrun
    have hkept := judge_kept hrun
    have hcovered := coveredAt (a.tree id) (fun _ _ => admits_valid s.returnType _)
    refine ⟨fun hinvalid => ?_, fun hquiet => ?_⟩
    · refine lt_of_le_of_ne hkept.errors.length_le fun hlength => ?_
      have hquiet : s'.log.errors = s.log.errors := (hkept.errors.eq_of_length hlength).symm
      rw [(hcovered s t s' hs rfl hrun hquiet).1] at hinvalid
      cases hinvalid
    · have hclean := (hcovered s t s' hs rfl hrun hquiet).2.clean hkept hs
      exact ⟨hclean, fun hsize i hi => typed_of_reaches hs hsize hrun hquiet hi⟩
  · intro tokens log log' p hp
    have hcomplete : ∀ f ∈ p.functions, (p.body f).Complete :=
      fun f hf => ((stored_of_parse hp).1 f hf).complete
    obtain ⟨types, out, hrun⟩ := exists_typeCheck_of_parse hp log'
    refine ⟨types, out, hrun, fun hquiet f hf i hi => ?_⟩
    obtain ⟨s, t, s', hbody⟩ := exists_bodyRun (statedTypesValid_of_parse hp)
      (stored_of_parse hp).2 hrun hquiet hf
    obtain ⟨_, u, hu, rfl⟩ := Arena.exists_contains_of_reaches hi (hcomplete f hf)
    rw [hbody.kept u hu]
    exact typed_of_reaches hbody.clean hbody.size.ge hbody.run hbody.quiet hi

/-- The tokens of `func f(x: int) -> int { let y = x + 1; y }`. -/
def successorTokens : List Token :=
  [⟨.funcWord, "func", ⟨0, 0⟩⟩, ⟨.ident, "f", ⟨0, 5⟩⟩, ⟨.leftParen, "(", ⟨0, 6⟩⟩,
    ⟨.ident, "x", ⟨0, 7⟩⟩, ⟨.colon, ":", ⟨0, 8⟩⟩, ⟨.ident, "int", ⟨0, 10⟩⟩,
    ⟨.rightParen, ")", ⟨0, 13⟩⟩, ⟨.arrow, "->", ⟨0, 15⟩⟩, ⟨.ident, "int", ⟨0, 18⟩⟩,
    ⟨.leftBrace, "\x7b", ⟨0, 22⟩⟩, ⟨.letWord, "let", ⟨0, 24⟩⟩, ⟨.ident, "y", ⟨0, 28⟩⟩,
    ⟨.equal, "=", ⟨0, 30⟩⟩, ⟨.ident, "x", ⟨0, 32⟩⟩, ⟨.plus, "+", ⟨0, 34⟩⟩,
    ⟨.integer, "1", ⟨0, 36⟩⟩, ⟨.semicolon, ";", ⟨0, 37⟩⟩, ⟨.ident, "y", ⟨0, 39⟩⟩,
    ⟨.rightBrace, "\x7d", ⟨0, 41⟩⟩]

/-- The expressions of `successorTokens`, each after its subexpressions. -/
def successorArena : Arena :=
  (((((Arena.empty.add (.var "x") ⟨0, 32⟩).add (.number "1" false) ⟨0, 36⟩).add
    (.binary .plus 0 1) ⟨0, 34⟩).add (.binding "y" none 2) ⟨0, 24⟩).add (.var "y") ⟨0, 39⟩).add
    (.block [3, 4]) ⟨0, 22⟩

/-- The program of `successorTokens`. -/
def successorProgram : Program where
  arena := successorArena
  functions := [⟨⟨"f", [⟨"x", .int, ⟨0, 7⟩⟩], .int, ⟨0, 5⟩⟩, 5⟩]

/-- The checker before the body of `successorProgram`. -/
def successorStart : Checker where
  types := Array.replicate 6 .invalid
  scopes := [[("x", .int)]]
  returnType := some .int

lemma descending_successorArena : successorArena.Descending :=
  (((((Arena.descending_empty.add (by decide)).add (by decide)).add (by decide)).add
    (by decide)).add (by decide)).add (by decide)

/-- A body with a binding is checked without an error, so all below it has got the type of a value,
in a run on the body alone as in one on the program. -/
theorem successor_types_every_part :
    (successorArena.Acyclic ∧ successorArena.size ≤ successorStart.types.size ∧
      successorStart.Clean ∧
      ∃ s', judge (successorArena.tree 5) successorStart = .ok (.int, s') ∧
        s'.log.errors = successorStart.log.errors ∧
        ∀ i, successorArena.Reaches 5 i → s'.Typed i) ∧
      (parse successorTokens {}).1 = some successorProgram ∧
      ∃ types out, typeCheck successorProgram {} = .ok (types, out) ∧ out.errors = [] ∧
        ∀ i, successorArena.Reaches 5 i → ∃ t, types[i]? = some t ∧ t.isInvalid = false := by
  have hacyclic := descending_successorArena.acyclic
  have hsize : successorArena.size ≤ successorStart.types.size := by decide
  have hclean : successorStart.Clean := ⟨by unfold ValidScopes; decide, by decide⟩
  have hparse : (parse successorTokens {}).1 = some successorProgram := by decide +kernel
  obtain ⟨hrun, hchecked⟩ := judge_types_every_part
  obtain ⟨types, out, hout, hquiet⟩ := hchecked successorTokens {} {} successorProgram hparse
  have herrors : out.errors = [] := by
    cases hout
    rfl
  refine ⟨⟨hacyclic, hsize, hclean, _, rfl, rfl, ?_⟩, hparse, types, out, hout, herrors, ?_⟩
  · exact (((hrun successorArena successorStart 5 hacyclic hclean).2 _ _ rfl).2 rfl).2 hsize
  · exact hquiet herrors _ List.mem_cons_self

end Fern
