import Fern.Parsing.Item
import Fern.Proofs.Diagnostic.Joining
import Fern.Proofs.Program.Relabelling

/-!
Relations between computations over tokens that are kept by what the parser is made of.

* `Correspondence`: such a relation, with the change of numbers and places that it allows for. It
  has one rule for each elementary step, one for sequences and one for the end of the steps allowed.
* `Correspondence.expressions`: all parts of the parser of expressions correspond to themselves,
  with any numbers of steps that the relation allows for; this is the induction on the number of
  steps.
* `Correspondence.items`: so does the parser of functions and declarations.
-/

namespace Fern

/-- The function under another number and at another place. -/
def Function.relabel (r : Relabelling) (f : Function) : Function :=
  ⟨f.prototype.relocate r.place, r.number f.body⟩

namespace Parsing

/-- The function or the declaration under another number and at another place. -/
def Item.relabel (r : Relabelling) : Item → Item
  | .function f => .function (f.relabel r)
  | .declaration p => .declaration (p.relocate r.place)

lemma Item.declarations_relabel (r : Relabelling) (is : List Item) :
    (is.map (Item.relabel r)).filterMap Item.declaration?
      = (is.filterMap Item.declaration?).map (Prototype.relocate r.place) := by
  rw [List.filterMap_map, List.map_filterMap]
  exact List.filterMap_congr fun i _ => by cases i <;> rfl

lemma Item.functions_relabel (r : Relabelling) (is : List Item) :
    (is.map (Item.relabel r)).filterMap Item.function?
      = (is.filterMap Item.function?).map (Function.relabel r) := by
  rw [List.filterMap_map, List.map_filterMap]
  exact List.filterMap_congr fun i _ => by cases i <;> rfl

/-- What comes next in the two states looks the same, apart from its place. -/
structure State.Alike (g : Location → Location) (s s' : State) : Prop where
  kind : s'.kind = s.kind
  lexeme : s'.lexeme = s.lexeme
  location : s'.location = g s.location
  isEmpty : s'.rest.isEmpty = s.rest.isEmpty

/-- The result has no labels. -/
abbrev unmoved {α : Type} (a : α) : α := a

/-- Reading a token of one kind is reading whatever token comes next if it is of this kind. -/
lemma expect_eq (k : Token.Kind) (expected : String) :
    expect k expected = (do
      if (← kind) = k then
        match ← advance with
        | some t => return t
        | none => failUnexpected expected
      else failUnexpected expected) := by
  funext s
  obtain ⟨rest, last, arena⟩ := s
  cases rest with
  | nil =>
      by_cases hk : Token.Kind.endOfInput = k
      · simp [expect, Bind.bind, EStateM.bind, kind, State.kind, hk, advance]
      · simp [expect, Bind.bind, EStateM.bind, kind, State.kind, hk]
  | cons t ts =>
      by_cases hk : t.kind = k
      · simp [expect, Bind.bind, EStateM.bind, kind, State.kind, hk, advance, Pure.pure,
          EStateM.pure]
      · simp [expect, Bind.bind, EStateM.bind, kind, State.kind, hk]

/-- A relation between computations that the operations of the parser keep: `rel ρ x y` says that
`y` does what `x` does, with `ρ` of the result. -/
structure Correspondence where
  /-- What becomes of numbers and places. -/
  labels : Relabelling
  /-- The numbers of steps that the two computations may be allowed. -/
  steps : ℕ → ℕ → Prop
  rel : ∀ {α β : Type}, (α → β) → Parse α → Parse β → Prop
  pred_steps : ∀ {n m}, steps (n + 1) m → ∃ k, m = k + 1 ∧ steps n k
  exhausted : ∀ {α β : Type} {ρ : α → β} {m} (y : ℕ → Parse β), steps 0 m →
    y 0 = throw .exhausted → rel ρ (throw .exhausted) (y m)
  withinBudget : ∀ {α β : Type} {ρ : α → β} {x : ℕ → Parse α} {y : ℕ → Parse β},
    (∀ {n m}, steps n m → rel ρ (x n) (y m)) → rel ρ (withinBudget x) (withinBudget y)
  bind : ∀ {α β γ δ : Type} {ρ : α → β} {σ : γ → δ} {x : Parse α} {y : Parse β}
    {f : α → Parse γ} {f' : β → Parse δ},
    rel ρ x y → (∀ a, rel σ (f a) (f' (ρ a))) → rel σ (x >>= f) (y >>= f')
  pure : ∀ {α β : Type} {ρ : α → β} {a b}, b = ρ a → rel ρ (pure a) (pure b)
  fail : ∀ {α β : Type} {ρ : α → β} (p l), rel ρ (fail p l) (fail p (labels.place l))
  /-- Of the state, what comes next may be looked at. -/
  look : ∀ {α β : Type} {ρ : α → β} {f : State → Parse α} {f' : State → Parse β},
    (∀ s s', State.Alike labels.place s s' → rel ρ (f s) (f' s')) → rel ρ (get >>= f) (get >>= f')
  advance : rel (Option.map (Token.relocate labels.place)) advance advance
  references : rel unmoved references references
  add : ∀ {shape shape' : Shape Tree} (l), shape' = shape.map (Tree.relabel labels) →
    rel (Tree.relabel labels) (add shape l) (add shape' (labels.place l))

namespace Correspondence

variable (C : Correspondence) {α β γ δ : Type} {ρ : α → β} {σ : γ → δ} {T : Tables} {n m : ℕ}

/-- The expression with the labels of the other side. -/
abbrev tree (t : Tree) : Tree := t.relabel C.labels

/-- The token at the place of the other side. -/
abbrev token (t : Token) : Token := t.relocate C.labels.place

/-! ### Elementary steps -/

lemma map {x : Parse α} {y : Parse β} {f : α → γ} {f' : β → δ} (hx : C.rel ρ x y)
    (h : ∀ a, f' (ρ a) = σ (f a)) : C.rel σ (f <$> x) (f' <$> y) := by
  rw [map_eq_pure_bind, map_eq_pure_bind]
  exact C.bind hx fun a => C.pure (h a)

lemma ite {c : Prop} [Decidable c] {x x' : Parse α} {y y' : Parse β} (h : C.rel ρ x y)
    (h' : C.rel ρ x' y') : C.rel ρ (if c then x else x') (if c then y else y') := by
  split
  · exact h
  · exact h'

/-- Looking at the kind of the next token. -/
lemma kind_bind {f : Token.Kind → Parse α} {f' : Token.Kind → Parse β}
    (h : ∀ k, C.rel ρ (f k) (f' k)) : C.rel ρ (kind >>= f) (kind >>= f') := by
  have hlook : C.rel ρ (get >>= fun s => f s.kind) (get >>= fun s => f' s.kind) :=
    C.look fun s _ hs => hs.kind ▸ h s.kind
  exact hlook

/-- Looking at the place of the next token. -/
lemma location_bind {f : Location → Parse α} {f' : Location → Parse β}
    (h : ∀ l, C.rel ρ (f l) (f' (C.labels.place l))) :
    C.rel ρ (location >>= f) (location >>= f') := by
  have hlook : C.rel ρ (get >>= fun s => f s.location) (get >>= fun s => f' s.location) :=
    C.look fun s _ hs => hs.location ▸ h s.location
  exact hlook

/-- Looking at the text of the next token. -/
lemma lexeme_bind {f : String → Parse α} {f' : String → Parse β}
    (h : ∀ text, C.rel ρ (f text) (f' text)) : C.rel ρ (lexeme >>= f) (lexeme >>= f') := by
  have hlook : C.rel ρ (get >>= fun s => f s.lexeme) (get >>= fun s => f' s.lexeme) :=
    C.look fun s _ hs => hs.lexeme ▸ h s.lexeme
  exact hlook

/-- The finding that an expression, a statement or an item does not go on as it should. -/
lemma fail_at_next (p : String → Problem) :
    C.rel ρ (do Parsing.fail (p (← lexeme)) (← location))
      (do Parsing.fail (p (← lexeme)) (← location)) :=
  C.lexeme_bind fun _ => C.location_bind fun _ => C.fail _ _

lemma failUnexpected (expected : String) :
    C.rel ρ (failUnexpected expected) (failUnexpected expected) :=
  C.fail_at_next (.unexpectedToken expected)

lemma skip : C.rel unmoved skip skip := by
  have hadvance : C.rel unmoved (do let _ ← Parsing.advance; return ())
      (do let _ ← Parsing.advance; return ()) := C.bind C.advance fun _ => C.pure rfl
  exact hadvance

lemma expect (k : Token.Kind) (expected : String) :
    C.rel C.token (expect k expected) (expect k expected) := by
  rw [expect_eq]
  refine C.kind_bind fun next => C.ite (C.bind C.advance fun token => ?_) (C.failUnexpected _)
  cases token with
  | none => exact C.failUnexpected _
  | some token => exact C.pure rfl

lemma optionally {k : Token.Kind} {x : Parse α} {y : Parse β} (h : C.rel ρ x y) :
    C.rel (Option.map ρ) (Parsing.optionally k x) (Parsing.optionally k y) :=
  C.kind_bind fun _ => C.ite (C.bind C.skip fun _ => C.map h fun _ => rfl) (C.pure rfl)

lemma listUnless {k : Token.Kind} {x : Parse (List α)} {y : Parse (List β)}
    (h : C.rel (List.map ρ) x y) :
    C.rel (List.map ρ) (listUnless k x) (listUnless k y) :=
  C.kind_bind fun _ => C.ite (C.pure rfl) h

/-! ### Types and literals -/

lemma type : C.rel unmoved type type := by
  refine C.bind C.references fun depth => C.bind (C.expect _ _) fun token => ?_
  simp only [unmoved, Token.lexeme_relocate]
  cases Ty.ofName? token.lexeme with
  | some base => exact C.pure rfl
  | none => exact C.fail _ _

lemma number : C.rel C.tree number number :=
  C.look fun s s' hs => C.bind C.skip fun _ => by
    rw [hs.kind, hs.lexeme, hs.location]
    exact C.add _ rfl

lemma boolean : C.rel C.tree boolean boolean :=
  C.look fun s s' hs => C.bind C.skip fun _ => by
    rw [hs.kind, hs.location]
    exact C.add _ rfl

lemma string : C.rel C.tree string string :=
  C.bind (C.expect _ _) fun _ => C.add _ rfl

lemma char : C.rel C.tree char char :=
  C.bind (C.expect _ _) fun _ => C.add _ rfl

lemma join (rule : OperatorRule) (left right : Tree) (operator : Token) :
    C.rel C.tree (join rule left operator right)
      (join rule (C.tree left) (C.token operator) (C.tree right)) := by
  cases rule with
  | binary => exact C.add _ rfl
  | assignment =>
      cases left with
      | missing id => exact C.fail _ _
      | node id l shape =>
          cases shape with
          | var name => exact C.ite (C.add _ rfl) (C.add _ rfl)
          | _ => exact C.fail _ _

lemma requireStatement (l : Location) :
    C.rel unmoved (requireStatement l) (requireStatement (C.labels.place l)) :=
  C.kind_bind fun _ => C.ite (C.fail _ _) (C.pure rfl)

lemma statementEnd (t : Tree) :
    C.rel unmoved (statementEnd t) (statementEnd (C.tree t)) := by
  have hother : C.rel unmoved
      (if t.endsWithBlock then return ()
        else do Parsing.fail (.expectedStatementEnd (← lexeme)) (← location))
      (if (C.tree t).endsWithBlock then return ()
        else do Parsing.fail (.expectedStatementEnd (← lexeme)) (← location)) := by
    rw [Tree.endsWithBlock_relabel]
    exact C.ite (C.pure rfl) (C.fail_at_next _)
  refine C.kind_bind fun k => ?_
  cases k with
  | semicolon => exact C.skip
  | rightBrace => exact C.pure rfl
  | _ => exact hother

/-! ### Expressions -/

/-- All parts of the parser of expressions correspond to themselves, with `n` steps and with `m`. -/
structure Expressions (T : Tables) (n m : ℕ) : Prop where
  expression : C.rel C.tree (expressionWithin T n) (expressionWithin T m)
  climb : ∀ least left,
    C.rel C.tree (climbWithin T n least left) (climbWithin T m least (C.tree left))
  operand : C.rel C.tree (operandWithin T n) (operandWithin T m)
  primary : ∀ rule, C.rel C.tree (primaryWithin T n rule) (primaryWithin T m rule)
  arguments : C.rel (List.map C.tree) (argumentsWithin T n) (argumentsWithin T m)
  block : C.rel C.tree (blockWithin T n) (blockWithin T m)
  statements : C.rel (List.map C.tree) (statementsWithin T n) (statementsWithin T m)

variable {C}

namespace Expressions

lemma climb_succ (h : C.Expressions T n m) (least : ℤ) (left : Tree) :
    C.rel C.tree (climbWithin T (n + 1) least left)
      (climbWithin T (m + 1) least (C.tree left)) := by
  rw [climbWithin, climbWithin]
  refine C.kind_bind fun next => ?_
  cases T.operator next with
  | none => exact C.pure rfl
  | some entry =>
      obtain ⟨power, rule⟩ := entry
      refine C.ite (C.pure rfl) (C.bind C.advance fun operator => ?_)
      cases operator with
      | none => exact C.pure rfl
      | some operator =>
          refine C.bind h.operand fun first => C.kind_bind fun next' => ?_
          refine C.bind (C.ite (h.climb _ first) (C.pure rfl)) fun right => ?_
          exact C.bind (C.join rule left right operator) fun joined => h.climb least joined

lemma identifier (h : C.Expressions T n m) :
    C.rel C.tree (primaryWithin T (n + 1) .identifier) (primaryWithin T (m + 1) .identifier) := by
  rw [primaryWithin, primaryWithin]
  refine C.bind (C.expect _ _) fun token => C.kind_bind fun next => ?_
  have hname : C.rel C.tree (Parsing.add (.var token.lexeme) token.location)
      (Parsing.add (.var token.lexeme) (C.labels.place token.location)) := C.add _ rfl
  cases next with
  | leftParen =>
      refine C.bind C.skip fun _ => C.bind (C.listUnless h.arguments) fun arguments => ?_
      exact C.bind (C.expect _ _) fun _ => C.add _ rfl
  | leftBracket =>
      refine C.bind hname fun operand => C.location_bind fun bracket => ?_
      refine C.bind C.skip fun _ => C.bind h.expression fun index => ?_
      exact C.bind (C.expect _ _) fun _ => C.add _ rfl
  | _ => exact hname

/-- However an expression begins, its parts correspond to themselves. -/
lemma primary_succ (h : C.Expressions T n m) (rule : PrimaryRule) :
    C.rel C.tree (primaryWithin T (n + 1) rule) (primaryWithin T (m + 1) rule) := by
  cases rule with
  | number => exact C.number
  | string => exact C.string
  | char => exact C.char
  | boolean => exact C.boolean
  | unary =>
      refine C.look fun s s' hs => C.bind C.skip fun _ => C.bind h.operand fun operand => ?_
      rw [hs.location, hs.kind]
      exact C.add _ rfl
  | identifier => exact h.identifier
  | grouping =>
      refine C.bind (C.expect _ _) fun _ => C.bind h.expression fun inner => ?_
      exact C.bind (C.expect _ _) fun _ => C.pure rfl
  | block => exact h.block
  | binding =>
      refine C.bind (C.expect _ _) fun start => C.bind (C.expect _ _) fun name => ?_
      refine C.bind (C.optionally C.type) fun stated => C.bind (C.expect _ _) fun _ => ?_
      refine C.bind h.expression fun value => C.add _ ?_
      cases stated <;> rfl
  | cond =>
      refine C.bind (C.expect _ _) fun start => C.bind h.expression fun condition => ?_
      refine C.bind h.block fun thenBlock => C.bind (C.optionally h.block) fun elseBlock => ?_
      exact C.add _ rfl
  | jump =>
      refine C.look fun s s' hs => C.bind C.skip fun _ => C.kind_bind fun next => ?_
      rw [hs.location, hs.kind]
      have hvalue : C.rel (Option.map C.tree) (some <$> expressionWithin T n)
          (some <$> expressionWithin T m) := C.map h.expression fun _ => rfl
      exact C.bind (C.ite hvalue (C.pure rfl)) fun value => C.add _ rfl
  | operand => exact h.operand
  | expression => exact h.expression

lemma arguments_succ (h : C.Expressions T n m) :
    C.rel (List.map C.tree) (argumentsWithin T (n + 1)) (argumentsWithin T (m + 1)) := by
  rw [argumentsWithin, argumentsWithin]
  refine C.bind h.expression fun argument => C.kind_bind fun next => ?_
  cases next with
  | comma => exact C.bind C.skip fun _ => C.bind h.arguments fun _ => C.pure rfl
  | rightParen => exact C.pure rfl
  | _ => exact C.failUnexpected _

lemma block_succ (h : C.Expressions T n m) :
    C.rel C.tree (blockWithin T (n + 1)) (blockWithin T (m + 1)) := by
  rw [blockWithin, blockWithin]
  refine C.bind (C.expect _ _) fun start => ?_
  refine C.bind (C.requireStatement start.location) fun _ => ?_
  refine C.bind h.statements fun statements => ?_
  exact C.bind (C.expect _ _) fun _ => C.add _ rfl

lemma statements_succ (h : C.Expressions T n m) :
    C.rel (List.map C.tree) (statementsWithin T (n + 1)) (statementsWithin T (m + 1)) := by
  rw [statementsWithin, statementsWithin]
  refine C.kind_bind fun next => C.ite (C.pure rfl) (C.bind h.expression fun statement => ?_)
  refine C.bind (C.statementEnd statement) fun _ => ?_
  exact C.bind h.statements fun _ => C.pure rfl

end Expressions

variable (C)

/-- **Expressions.** With numbers of steps that the relation allows for, all parts of the parser of
expressions correspond to themselves. -/
theorem expressions (h : C.steps n m) : C.Expressions T n m := by
  induction n generalizing m with
  | zero =>
      exact ⟨C.exhausted (expressionWithin T) h rfl,
        fun least left => C.exhausted (climbWithin T · least (C.tree left)) h rfl,
        C.exhausted (operandWithin T) h rfl,
        fun rule => C.exhausted (primaryWithin T · rule) h rfl,
        C.exhausted (argumentsWithin T) h rfl, C.exhausted (blockWithin T) h rfl,
        C.exhausted (statementsWithin T) h rfl⟩
  | succ n ih =>
      obtain ⟨m, rfl, hpred⟩ := C.pred_steps h
      have hparts := ih hpred
      refine ⟨?_, hparts.climb_succ, ?_, hparts.primary_succ, hparts.arguments_succ,
        hparts.block_succ, hparts.statements_succ⟩
      · rw [expressionWithin, expressionWithin]
        exact C.bind hparts.operand fun left => hparts.climb 0 left
      · rw [operandWithin, operandWithin]
        refine C.kind_bind fun next => ?_
        cases T.primary next with
        | some rule => exact hparts.primary rule
        | none => exact C.fail_at_next _

/-! ### Functions and declarations -/

lemma parameter : C.rel (Parameter.relocate C.labels.place) parameter parameter :=
  C.bind (C.expect _ _) fun _ => C.bind (C.expect _ _) fun _ => C.bind C.type fun _ => C.pure rfl

lemma parameters (h : C.steps n m) : C.rel (List.map (Parameter.relocate C.labels.place))
    (parametersWithin n) (parametersWithin m) := by
  induction n generalizing m with
  | zero => exact C.exhausted parametersWithin h rfl
  | succ n ih =>
      obtain ⟨m, rfl, hpred⟩ := C.pred_steps h
      rw [parametersWithin, parametersWithin]
      refine C.bind C.parameter fun first => C.kind_bind fun next => ?_
      cases next with
      | comma => exact C.bind C.skip fun _ => C.bind (ih hpred) fun _ => C.pure rfl
      | rightParen => exact C.pure rfl
      | _ => exact C.failUnexpected _

lemma prototype : C.rel (Prototype.relocate C.labels.place) prototype prototype := by
  refine C.bind (C.expect _ _) fun _ => C.bind (C.expect _ _) fun name => ?_
  refine C.bind (C.expect _ _) fun _ => ?_
  refine C.bind (C.listUnless (C.withinBudget C.parameters)) fun parameters => ?_
  refine C.bind (C.expect _ _) fun _ => C.bind (C.optionally C.type) fun returnType => ?_
  exact C.pure (by cases returnType <;> rfl)

lemma block : C.rel C.tree (block T) (block T) :=
  C.withinBudget fun h => (C.expressions h).block

lemma function : C.rel (Function.relabel C.labels) (function T) (function T) := by
  refine C.bind C.prototype fun p => C.bind C.block fun body => ?_
  exact C.pure (congrArg (Function.mk _) (body.id_relabel _))

lemma declaration : C.rel (Prototype.relocate C.labels.place) declaration declaration :=
  C.bind (C.expect _ _) fun _ => C.bind C.prototype fun _ =>
    C.bind (C.expect _ _) fun _ => C.pure rfl

lemma item : C.rel (Item.relabel C.labels) (item T) (item T) := by
  refine C.kind_bind fun next => ?_
  cases next with
  | funcWord => exact C.map C.function fun _ => rfl
  | externWord => exact C.map C.declaration fun _ => rfl
  | _ => exact C.fail_at_next _

/-- **Items.** So does the parser of all functions and declarations up to the end of the tokens. -/
theorem items (h : C.steps n m) :
    C.rel (List.map (Item.relabel C.labels)) (itemsWithin T n) (itemsWithin T m) := by
  induction n generalizing m with
  | zero => exact C.exhausted (itemsWithin T) h rfl
  | succ n ih =>
      obtain ⟨m, rfl, hpred⟩ := C.pred_steps h
      rw [itemsWithin, itemsWithin]
      refine C.look fun s s' hs => ?_
      rw [hs.isEmpty]
      exact C.ite (C.pure rfl) (C.bind C.item fun _ => C.bind (ih hpred) fun _ => C.pure rfl)

end Correspondence

end Parsing

end Fern
