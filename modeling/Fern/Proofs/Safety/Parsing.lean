import Mathlib.Tactic
import Fern.Proofs.Parsing.Language
import Fern.Proofs.Safety.Offsets

/-!
The parser by numbers, with a check wherever a stored expression is looked up.

* `Guarded.Run`: computations over the tokens that know expressions by their numbers alone, and stop
  at a fault.
* `Guarded.expressionWithin` and its companions: the parts of the parser as such computations.
* `Guarded.Follows`: one computation follows another: the first gives the numbers of what the second
  gives. `Guarded.Follows.bind` puts computations together.
* `Guarded.FollowsAt`: this for all parts of the parser of expressions, with a given number of
  steps; `Guarded.followsAt` is the induction on this number.
* `Guarded.parse_eq`: **no fault is met on the way to a program**.
-/

namespace Fern

namespace Parsing.Guarded

/-! ### Computations by numbers -/

/-- Why a computation gives no result. -/
inductive Stop where
  | failure (f : Failure)
  | fault (f : Fault)
deriving Repr, DecidableEq

/-- A computation over the tokens that may meet a fault. -/
abbrev Run := EStateM Stop State

/-- A computation that looks no expression up. -/
def lift {α : Type} (p : Parse α) : Run α := fun s =>
  match p s with
  | .ok a s' => .ok a s'
  | .error e s' => .error (.failure e) s'

instance : MonadLift Parse Run := ⟨lift⟩

/-- Stores an expression at a place. Its number is one less than the number of all. -/
def store (shape : Shape NodeId) (l : Location) : Run NodeId := fun s =>
  let arena := s.arena.add shape l
  match Fern.Guarded.sub arena.size 1 with
  | .ok id => .ok id { s with arena := arena }
  | .error f => .error (.fault f) s

/-- The expression stored under a number. -/
def fetch (id : NodeId) : Run Node := fun s =>
  match s.arena.get? id with
  | some node => .ok node s
  | none => .error (.fault (.missing id)) s

/-- If the next token is of one kind, skips it and goes on with `q`. -/
def optionally {α : Type} (k : Token.Kind) (q : Run α) : Run (Option α) := do
  if (← kind) = k then
    skip
    some <$> q
  else return none

/-- Goes on with `q` unless the next token is of one kind. -/
def listUnless {α : Type} (k : Token.Kind) (q : Run (List α)) : Run (List α) := do
  if (← kind) = k then return [] else q

/-! ### The parts of the parser -/

/-- A number. -/
def number : Run NodeId := do
  let s ← get
  skip
  store (.number s.lexeme (s.kind = .float)) s.location

/-- A string literal. -/
def string : Run NodeId := do
  let token ← expect .string "string"
  store (.string token.lexeme) token.location

/-- A character literal. -/
def char : Run NodeId := do
  let token ← expect .char "character"
  store (.char token.lexeme) token.location

/-- A truth value. -/
def boolean : Run NodeId := do
  let s ← get
  skip
  store (.boolean (s.kind = .trueWord)) s.location

/-- Joins two operands by an operator. An assignment looks its left operand up, and a binding takes
its name and its place. -/
def join (rule : OperatorRule) (left : NodeId) (operator : Token) (right : NodeId) :
    Run NodeId := do
  match rule with
  | .binary => store (.binary operator.kind left right) operator.location
  | .assignment =>
    match (← fetch left).shape with
    | .var name =>
      if operator.kind = .colonEqual then
        store (.binding name none right) (← fetch left).location
      else store (.binary operator.kind left right) operator.location
    | _ => fail .invalidAssignmentTarget operator.location

/-- Whether an expression of some form ends with a block. -/
def endsWithBlock : Shape NodeId → Bool
  | .cond _ _ _ | .block _ => true
  | _ => false

/-- The end of a statement, which is looked up if there is no sign of an end. -/
def statementEnd (statement : NodeId) : Run Unit := do
  match ← kind with
  | .semicolon => skip
  | .rightBrace => return ()
  | _ =>
    if endsWithBlock (← fetch statement).shape then return ()
    else fail (.expectedStatementEnd (← lexeme)) (← location)

mutual

/-- An operand and the operators after it. -/
def expressionWithin (tables : Tables) : Nat → Run NodeId
  | 0 => throw (.failure .exhausted)
  | n + 1 => do
    let left ← operandWithin tables n
    climbWithin tables n 0 left

/-- The operators after `left` whose level is at least `least`, with their right operands. -/
def climbWithin (tables : Tables) : Nat → Int → NodeId → Run NodeId
  | 0, _, _ => throw (.failure .exhausted)
  | n + 1, least, left => do
    match tables.operator (← kind) with
    | none => return left
    | some (power, rule) =>
      if power.level < least then return left
      else
        match ← advance with
        | none => return left
        | some operator =>
          let first ← operandWithin tables n
          let next ← kind
          let right ← (if power.level < (tables.power next).level then
            climbWithin tables n (power.level + 1) first else pure first)
          let joined ← join rule left operator right
          climbWithin tables n least joined

/-- Whatever can begin an expression. -/
def operandWithin (tables : Tables) : Nat → Run NodeId
  | 0 => throw (.failure .exhausted)
  | n + 1 => do
    match tables.primary (← kind) with
    | some rule => primaryWithin tables n rule
    | none => fail (.expectedExpression (← lexeme)) (← location)

/-- An expression that begins in a given way. -/
def primaryWithin (tables : Tables) : Nat → PrimaryRule → Run NodeId
  | 0, _ => throw (.failure .exhausted)
  | _ + 1, .number => number
  | _ + 1, .string => string
  | _ + 1, .char => char
  | _ + 1, .boolean => boolean
  | n + 1, .unary => do
    let s ← get
    skip
    let operand ← operandWithin tables n
    store (.unary s.kind operand) s.location
  | n + 1, .identifier => do
    let token ← expect .ident "identifier"
    match ← kind with
    | .leftParen =>
      skip
      let arguments ← listUnless .rightParen (argumentsWithin tables n)
      let _ ← expect .rightParen "`)`"
      store (.call token.lexeme arguments) token.location
    | .leftBracket =>
      let operand ← store (.var token.lexeme) token.location
      let bracket ← location
      skip
      let index ← expressionWithin tables n
      let _ ← expect .rightBracket "closing `]`"
      store (.subscript operand index) bracket
    | _ => store (.var token.lexeme) token.location
  | n + 1, .grouping => do
    let _ ← expect .leftParen "`(`"
    let inner ← expressionWithin tables n
    let _ ← expect .rightParen "`)`"
    return inner
  | n + 1, .block => blockWithin tables n
  | n + 1, .binding => do
    let start ← expect .letWord "`let`"
    let name ← expect .ident "variable name after `let`"
    let stated ← Parsing.optionally .colon type
    let _ ← expect .equal "`=`"
    let value ← expressionWithin tables n
    store (.binding name.lexeme stated value) start.location
  | n + 1, .cond => do
    let start ← expect .ifWord "`if`"
    let condition ← expressionWithin tables n
    let thenBlock ← blockWithin tables n
    let elseBlock ← optionally .elseWord (blockWithin tables n)
    store (.cond condition thenBlock elseBlock) start.location
  | n + 1, .jump => do
    let s ← get
    skip
    let next ← kind
    let value ← (if s.kind = .returnWord ∧ next ≠ .semicolon ∧ next ≠ .rightBrace then
      some <$> expressionWithin tables n else pure none)
    store (.jump s.kind value) s.location
  | n + 1, .operand => operandWithin tables n
  | n + 1, .expression => expressionWithin tables n

/-- One argument or more, with commas between them, up to the closing parenthesis. -/
def argumentsWithin (tables : Tables) : Nat → Run (List NodeId)
  | 0 => throw (.failure .exhausted)
  | n + 1 => do
    let argument ← expressionWithin tables n
    match ← kind with
    | .comma =>
      skip
      let others ← argumentsWithin tables n
      return argument :: others
    | .rightParen => return [argument]
    | _ => failUnexpected "`,` or `)`"

/-- One statement or more in braces. -/
def blockWithin (tables : Tables) : Nat → Run NodeId
  | 0 => throw (.failure .exhausted)
  | n + 1 => do
    let start ← expect .leftBrace "`\x7b`"
    requireStatement start.location
    let statements ← statementsWithin tables n
    let _ ← expect .rightBrace "`\x7d`"
    store (.block statements) start.location

/-- Statements up to the closing brace. -/
def statementsWithin (tables : Tables) : Nat → Run (List NodeId)
  | 0 => throw (.failure .exhausted)
  | n + 1 => do
    if (← kind) = .rightBrace then return []
    else
      let statement ← expressionWithin tables n
      statementEnd statement
      let others ← statementsWithin tables n
      return statement :: others

end

/-- A computation with enough steps for the tokens that are left. -/
def withinBudget {α : Type} (q : Nat → Run α) : Run α := fun s => q (8 * (s.rest.length + 1)) s

/-- A function: its prototype and the number of its body. -/
def function (tables : Tables) : Run Function := do
  let prototype ← prototype
  let body ← withinBudget (blockWithin tables)
  return ⟨prototype, body⟩

/-- A function or a declaration. -/
def item (tables : Tables) : Run Item := do
  match ← kind with
  | .funcWord => .function <$> function tables
  | .externWord => .declaration <$> (declaration : Run Prototype)
  | _ => fail (.unexpectedTopLevelToken (← lexeme)) (← location)

/-- Items up to the end of the tokens. -/
def itemsWithin (tables : Tables) : Nat → Run (List Item)
  | 0 => throw (.failure .exhausted)
  | n + 1 => do
    if (← get).rest.isEmpty then return []
    else
      let first ← item tables
      let others ← itemsWithin tables n
      return first :: others

/-- A whole program. -/
def program (tables : Tables) : Run Program := do
  let items ← withinBudget (itemsWithin tables)
  let arena ← takeArena
  return ⟨arena, items.filterMap Item.declaration?, items.filterMap Item.function?⟩

/-- The program that the tokens make. A problem is recorded, and then there is none. -/
def parse (tokens : List Token) (log : Log) : Except Fault (Option Program × Log) :=
  match (program .standard).run (.ofTokens tokens) with
  | .ok program _ => .ok (some program, log)
  | .error (.failure (.finding d)) _ => .ok (none, log.record d)
  | .error (.failure .exhausted) _ => .ok (none, log)
  | .error (.fault f) _ => .error f

/-! ### One computation after another -/

/-- From `s`, the computation `q` runs as `p` does and meets no fault. On the way nothing that is
stored is lost. What `p` gives is `good` in the store that is left, and `q` gives `f` of it. -/
def Follows {α β : Type} (q : Run β) (p : Parse α) (f : α → β) (good : Arena → α → Prop)
    (s : State) : Prop :=
  match p s with
  | .ok a s' => q s = .ok (f a) s' ∧ s.arena.Extends s'.arena ∧ good s'.arena a
  | .error e s' => q s = .error (.failure e) s'

/-- Whatever it is. -/
abbrev Anything {α : Type} (_ : Arena) (_ : α) : Prop := True

/-- The expressions in `ts` are stored. -/
def StoresAll (a : Arena) (ts : List Tree) : Prop := ∀ t ∈ ts, a.Stores t

lemma storesAll_nil (a : Arena) : StoresAll a [] := by simp [StoresAll]

lemma storesAll_cons {a : Arena} {t : Tree} {ts : List Tree} (ht : a.Stores t)
    (hts : StoresAll a ts) : StoresAll a (t :: ts) := by
  intro u hu
  rcases List.mem_cons.mp hu with rfl | hu
  · exact ht
  · exact hts u hu

lemma StoresAll.mono {a b : Arena} {ts : List Tree} (h : StoresAll a ts) (hab : a.Extends b) :
    StoresAll b ts :=
  fun t ht => (h t ht).mono hab

/-- A computation that stores nothing. -/
def ReadsOnly {α : Type} (p : Parse α) : Prop := ∀ s a s', p s = .ok a s' → s'.arena = s.arena

lemma ReadsOnly.follows {α : Type} {p : Parse α} (h : ReadsOnly p) (s : State) :
    Follows (lift p) p id Anything s := by
  unfold Follows lift
  cases hp : p s with
  | ok a s' => exact ⟨rfl, h s a s' hp ▸ .refl _, trivial⟩
  | error e s' => rfl

lemma readsOnly_lexeme : ReadsOnly lexeme := by
  rintro s _ _ ⟨⟩
  rfl

lemma readsOnly_location : ReadsOnly location := by
  rintro s _ _ ⟨⟩
  rfl

lemma readsOnly_skip : ReadsOnly skip := by
  rintro s _ _ ⟨⟩
  rfl

lemma readsOnly_advance : ReadsOnly advance := by
  rintro s _ _ ⟨⟩
  rfl

lemma readsOnly_expect (k : Token.Kind) (expected : String) : ReadsOnly (expect k expected) := by
  intro s token s' h
  obtain ⟨ts, -, -, rfl⟩ := expect_eq_ok.mp h
  rfl

lemma readsOnly_requireStatement (l : Location) : ReadsOnly (requireStatement l) := by
  intro s u s' h
  obtain ⟨-, rfl⟩ := requireStatement_eq_ok.mp h
  rfl

lemma readsOnly_optionalType {k : Token.Kind} (hk : k ≠ .endOfInput) :
    ReadsOnly (Parsing.optionally k type) := by
  intro s stated s' h
  obtain ⟨_, _, _, ts', -, -, -, -, rfl⟩ | ⟨-, -, rfl⟩ := (optionalType_eq_ok hk).mp h
  · rfl
  · rfl

lemma readsOnly_prototype : ReadsOnly prototype := by
  intro s p s' h
  obtain ⟨ts', -, rfl⟩ := prototype_sound h
  rfl

lemma readsOnly_declaration : ReadsOnly declaration := by
  intro s p s' h
  obtain ⟨word, ts, s₁, semicolon, ts₁, -, -, hp, -, -, rfl⟩ := declaration_eq_ok.mp h
  exact readsOnly_prototype (s.moved ts) p s₁ hp

namespace Follows

variable {α β γ δ : Type} {q : Run β} {p : Parse α} {f : α → β} {good : Arena → α → Prop}
  {good' : Arena → γ → Prop} {s : State}

lemma bind {g : γ → δ} {r : β → Run δ} {k : α → Parse γ} (h : Follows q p f good s)
    (hnext : ∀ a s', s.arena.Extends s'.arena → good s'.arena a →
      Follows (r (f a)) (k a) g good' s') :
    Follows (q >>= r) (p >>= k) g good' s := by
  unfold Follows at h ⊢
  simp only [Bind.bind, EStateM.bind]
  cases hp : p s with
  | ok a s' =>
      rw [hp] at h
      obtain ⟨hq, hextends, hgood⟩ := h
      have hrest := hnext a s' hextends hgood
      unfold Follows at hrest
      simp only [hq]
      cases hk : k a s' with
      | ok c s'' =>
          rw [hk] at hrest
          exact ⟨hrest.1, hextends.trans hrest.2.1, hrest.2.2⟩
      | error e s'' =>
          rw [hk] at hrest
          exact hrest
  | error e s' =>
      rw [hp] at h
      simp only [h]

lemma pure {a : α} {b : β} (hb : b = f a) (hgood : good s.arena a) :
    Follows (Pure.pure b) (Pure.pure a) f good s := by
  subst hb
  exact ⟨rfl, .refl _, hgood⟩

lemma map {g : α → γ} {g' : β → δ} {f' : γ → δ} (h : Follows q p f good s)
    (hf : ∀ a, g' (f a) = f' (g a)) (hgood : ∀ b a, good b a → good' b (g a)) :
    Follows (g' <$> q) (g <$> p) f' good' s := by
  rw [map_eq_pure_bind, map_eq_pure_bind]
  refine h.bind fun a s' _ ha => ?_
  exact .pure (hf a) (hgood _ _ ha)

/-- A computation that only reads tokens may come first. -/
lemma read_bind {r : α → Run δ} {p : Parse α} {k : α → Parse γ} {g : γ → δ} (hp : ReadsOnly p)
    (hnext : ∀ a s', s.arena.Extends s'.arena → Follows (r a) (k a) g good' s') :
    Follows (liftM p >>= r) (p >>= k) g good' s :=
  Follows.bind (hp.follows s) fun a s' hextends _ => hnext a s' hextends

/-- The next token does not change by being looked at. -/
lemma kind_bind {r : Token.Kind → Run δ} {k : Token.Kind → Parse γ} {g : γ → δ}
    (hnext : ∀ kind, Follows (r kind) (k kind) g good' s) :
    Follows (liftM kind >>= r) (kind >>= k) g good' s :=
  hnext s.kind

/-- The state is the same for both. -/
lemma get_bind {r : State → Run δ} {k : State → Parse γ} {g : γ → δ}
    (hnext : Follows (r s) (k s) g good' s) : Follows (get >>= r) (get >>= k) g good' s :=
  hnext

lemma fail (problem : Problem) (l : Location) :
    Follows (liftM (fail problem l : Parse β)) (fail problem l) f good s := rfl

lemma failUnexpected (expected : String) :
    Follows (liftM (failUnexpected expected : Parse β)) (failUnexpected expected) f good s := rfl

/-- The number of an expression that is stored is that of the last one. -/
lemma add {shape : Shape Tree} {numbers : Shape NodeId} (l : Location)
    (hnumbers : numbers = shape.map Tree.id) (h : StoresAll s.arena shape.children) :
    Follows (store numbers l) (add shape l) Tree.id Arena.Stores s := by
  subst hnumbers
  refine ⟨?_, Arena.extends_add _ _ _, Arena.stores_add l h⟩
  simp [store, Fern.Guarded.sub, Tree.id]

/-- A stored expression is found. -/
lemma fetch_bind {id : NodeId} {l : Location} {shape : Shape Tree} {r : Node → Run β}
    (hstored : s.arena.Stores (.node id l shape))
    (hnext : Follows (r ⟨shape.map Tree.id, l⟩) p f good s) :
    Follows (fetch id >>= r) p f good s := by
  cases hstored with
  | node found _ _ =>
      have hfetch : (fetch id >>= r) s = r ⟨shape.map Tree.id, l⟩ s := by
        simp [fetch, found, Bind.bind, EStateM.bind]
      unfold Follows at hnext ⊢
      rw [hfetch]
      exact hnext

/-- The number of an expression that is read is that of a part that may be left out. -/
lemma present {q : Run NodeId} {p : Parse Tree} (h : Follows q p Tree.id Arena.Stores s) :
    Follows (some <$> q) (some <$> p) (Option.map Tree.id)
      (fun a part => StoresAll a part.toList) s :=
  h.map (fun _ => rfl) fun a _ ht => storesAll_cons ht (storesAll_nil a)

lemma absent :
    Follows (Pure.pure none) (Pure.pure none) (Option.map Tree.id)
      (fun a part => StoresAll a part.toList) s :=
  .pure rfl (storesAll_nil _)

lemma optionally {k : Token.Kind} {q : Run NodeId} {p : Parse Tree}
    (h : ∀ s, Follows q p Tree.id Arena.Stores s) :
    Follows (optionally k q) (Parsing.optionally k p) (Option.map Tree.id)
      (fun a part => StoresAll a part.toList) s := by
  refine .kind_bind fun kind => ?_
  split_ifs
  · exact .read_bind readsOnly_skip fun _ s' _ => (h s').present
  · exact .absent

lemma listUnless {k : Token.Kind} {q : Run (List NodeId)} {p : Parse (List Tree)}
    (h : Follows q p (List.map Tree.id) StoresAll s) :
    Follows (listUnless k q) (Parsing.listUnless k p) (List.map Tree.id) StoresAll s := by
  refine .kind_bind fun kind => ?_
  split_ifs
  · exact .pure rfl (storesAll_nil _)
  · exact h

/-- The tokens that are left, and so the steps allowed, are the same for both. -/
lemma withinBudget {q : ℕ → Run β} {p : ℕ → Parse α} (h : ∀ n, Follows (q n) (p n) f good s) :
    Follows (withinBudget q) (Parsing.withinBudget p) f good s :=
  h _

end Follows

/-! ### The parts of the parser -/

variable {tables : Tables} {n : ℕ} {s : State} {left right statement : Tree}

/-- The left operand of an assignment is stored, so it is found. -/
lemma follows_join (rule : OperatorRule) (operator : Token) (hleft : s.arena.Stores left)
    (hright : s.arena.Stores right) :
    Follows (join rule left.id operator right.id) (Parsing.join rule left operator right) Tree.id
      Arena.Stores s := by
  have hvalue : StoresAll s.arena [right] := storesAll_cons hright (storesAll_nil _)
  have hboth : StoresAll s.arena [left, right] := storesAll_cons hleft hvalue
  cases rule with
  | binary => exact .add _ rfl hboth
  | assignment =>
      cases left with
      | missing id => cases hleft
      | node id l shape =>
          refine .fetch_bind hleft ?_
          cases shape with
          | var name =>
              by_cases hsign : operator.kind = .colonEqual
              · simp only [Parsing.join, Tree.name?, Shape.map, if_pos hsign]
                exact .fetch_bind hleft (.add _ rfl hvalue)
              · simp only [Parsing.join, Tree.name?, Shape.map, if_neg hsign]
                exact .add _ rfl hboth
          | _ => exact .fail _ _

lemma endsWithBlock_map (id : NodeId) (l : Location) (shape : Shape Tree) :
    endsWithBlock (shape.map Tree.id) = (Tree.node id l shape).endsWithBlock := by
  cases shape <;> rfl

/-- A statement is stored when its end is looked for, so it is found. -/
lemma follows_statementEnd (hstored : s.arena.Stores statement) :
    Follows (statementEnd statement.id) (Parsing.statementEnd statement) id Anything s := by
  have hother : Follows
      (do if endsWithBlock (← fetch statement.id).shape then return ()
          else fail (.expectedStatementEnd (← lexeme)) (← location))
      (do if statement.endsWithBlock then return ()
          else fail (.expectedStatementEnd (← lexeme)) (← location)) id Anything s := by
    cases statement with
    | missing id => cases hstored
    | node id l shape =>
        refine .fetch_bind hstored ?_
        rw [endsWithBlock_map id l]
        split_ifs
        · exact .pure rfl trivial
        · exact .read_bind readsOnly_lexeme fun _ _ _ =>
            .read_bind readsOnly_location fun _ _ _ => .fail _ _
  refine .kind_bind fun kind => ?_
  cases kind with
  | semicolon => exact readsOnly_skip.follows s
  | rightBrace => exact .pure rfl trivial
  | _ => exact hother

/-- With `n` steps, every part of the parser by numbers follows the part of the parser. The operand
before some operators has been stored. -/
structure FollowsAt (tables : Tables) (n : ℕ) : Prop where
  expression : ∀ s, Follows (expressionWithin tables n) (Parsing.expressionWithin tables n) Tree.id
    Arena.Stores s
  climb : ∀ least {left s}, s.arena.Stores left → Follows (climbWithin tables n least left.id)
    (Parsing.climbWithin tables n least left) Tree.id Arena.Stores s
  operand : ∀ s, Follows (operandWithin tables n) (Parsing.operandWithin tables n) Tree.id
    Arena.Stores s
  primary : ∀ rule s, Follows (primaryWithin tables n rule) (Parsing.primaryWithin tables n rule)
    Tree.id Arena.Stores s
  arguments : ∀ s, Follows (argumentsWithin tables n) (Parsing.argumentsWithin tables n)
    (List.map Tree.id) StoresAll s
  block : ∀ s, Follows (blockWithin tables n) (Parsing.blockWithin tables n) Tree.id Arena.Stores s
  statements : ∀ s, Follows (statementsWithin tables n) (Parsing.statementsWithin tables n)
    (List.map Tree.id) StoresAll s

namespace FollowsAt

lemma zero : FollowsAt tables 0 :=
  ⟨fun _ => rfl, fun _ {_ _} _ => rfl, fun _ => rfl, fun _ _ => rfl, fun _ => rfl, fun _ => rfl,
    fun _ => rfl⟩

variable (h : FollowsAt tables n)
include h

lemma expression_succ (s : State) :
    Follows (expressionWithin tables (n + 1)) (Parsing.expressionWithin tables (n + 1)) Tree.id
      Arena.Stores s :=
  (h.operand s).bind fun _ _ _ hleft => h.climb 0 hleft

/-- What has been stored stays so while the right operand is read, so both are found. -/
lemma climb_succ (least : ℤ) (hleft : s.arena.Stores left) :
    Follows (climbWithin tables (n + 1) least left.id)
      (Parsing.climbWithin tables (n + 1) least left) Tree.id Arena.Stores s := by
  rw [climbWithin, Parsing.climbWithin]
  refine .kind_bind fun kind => ?_
  cases tables.operator kind with
  | none => exact .pure rfl hleft
  | some found =>
      obtain ⟨power, rule⟩ := found
      dsimp only
      split_ifs
      · exact .pure rfl hleft
      refine .read_bind readsOnly_advance fun operator s₁ hread => ?_
      cases operator with
      | none => exact .pure rfl (hleft.mono hread)
      | some operator =>
          refine (h.operand s₁).bind fun first s₂ hbefore hfirst => .kind_bind fun next => ?_
          have hright : Follows
              (if power.level < (tables.power next).level then
                climbWithin tables n (power.level + 1) first.id else pure first.id)
              (if power.level < (tables.power next).level then
                Parsing.climbWithin tables n (power.level + 1) first else pure first)
              Tree.id Arena.Stores s₂ := by
            split_ifs
            · exact h.climb _ hfirst
            · exact .pure rfl hfirst
          refine hright.bind fun right s₃ hbetween hright => ?_
          have hleft := ((hleft.mono hread).mono hbefore).mono hbetween
          exact (follows_join rule operator hleft hright).bind fun _ _ _ hjoined =>
            h.climb least hjoined

lemma operand_succ (s : State) :
    Follows (operandWithin tables (n + 1)) (Parsing.operandWithin tables (n + 1)) Tree.id
      Arena.Stores s := by
  rw [operandWithin, Parsing.operandWithin]
  refine .kind_bind fun kind => ?_
  cases tables.primary kind with
  | some rule => exact h.primary rule s
  | none =>
      exact .read_bind readsOnly_lexeme fun _ _ _ =>
        .read_bind readsOnly_location fun _ _ _ => .fail _ _

lemma identifier (s : State) :
    Follows (primaryWithin tables (n + 1) .identifier)
      (Parsing.primaryWithin tables (n + 1) .identifier) Tree.id Arena.Stores s := by
  rw [primaryWithin, Parsing.primaryWithin]
  refine .read_bind (readsOnly_expect _ _) fun token s₁ _ => .kind_bind fun kind => ?_
  cases kind with
  | leftParen =>
      exact .read_bind readsOnly_skip fun _ s₂ _ =>
        (Follows.listUnless (h.arguments s₂)).bind fun arguments s₃ _ hstored =>
          .read_bind (readsOnly_expect _ _) fun _ s₄ hread => .add _ rfl (hstored.mono hread)
  | leftBracket =>
      refine (Follows.add _ rfl (storesAll_nil _)).bind fun operand s₂ _ hoperand => ?_
      refine .read_bind readsOnly_location fun bracket s₃ hread => .read_bind readsOnly_skip
        fun _ s₄ hread' => (h.expression s₄).bind fun index s₅ hbefore hindex =>
          .read_bind (readsOnly_expect _ _) fun _ s₆ hafter => .add _ rfl ?_
      have hoperand := (((hoperand.mono hread).mono hread').mono hbefore).mono hafter
      exact storesAll_cons hoperand (storesAll_cons (hindex.mono hafter) (storesAll_nil _))
  | _ => exact .add _ rfl (storesAll_nil _)

lemma cond (s : State) :
    Follows (primaryWithin tables (n + 1) .cond) (Parsing.primaryWithin tables (n + 1) .cond)
      Tree.id Arena.Stores s := by
  rw [primaryWithin, Parsing.primaryWithin]
  refine .read_bind (readsOnly_expect _ _) fun start s₁ _ =>
    (h.expression s₁).bind fun condition s₂ _ hcondition =>
      (h.block s₂).bind fun thenBlock s₃ hbetween hthen =>
        (Follows.optionally h.block).bind fun elseBlock s₄ hafter helse => .add _ rfl ?_
  have hcondition := (hcondition.mono hbetween).mono hafter
  exact storesAll_cons hcondition (storesAll_cons (hthen.mono hafter) helse)

lemma jump (s : State) :
    Follows (primaryWithin tables (n + 1) .jump) (Parsing.primaryWithin tables (n + 1) .jump)
      Tree.id Arena.Stores s := by
  rw [primaryWithin, Parsing.primaryWithin]
  refine .get_bind (.read_bind readsOnly_skip fun _ s₁ _ => .kind_bind fun next => ?_)
  split_ifs
  · exact (h.expression s₁).present.bind fun value _ _ hvalue => .add _ rfl hvalue
  · exact Follows.absent.bind fun value _ _ hvalue => .add _ rfl hvalue

lemma primary_succ (rule : PrimaryRule) (s : State) :
    Follows (primaryWithin tables (n + 1) rule) (Parsing.primaryWithin tables (n + 1) rule) Tree.id
      Arena.Stores s := by
  cases rule with
  | number => exact .get_bind (.read_bind readsOnly_skip fun _ _ _ => .add _ rfl (storesAll_nil _))
  | boolean => exact .get_bind (.read_bind readsOnly_skip fun _ _ _ => .add _ rfl (storesAll_nil _))
  | string => exact .read_bind (readsOnly_expect _ _) fun _ _ _ => .add _ rfl (storesAll_nil _)
  | char => exact .read_bind (readsOnly_expect _ _) fun _ _ _ => .add _ rfl (storesAll_nil _)
  | unary =>
      exact .get_bind (.read_bind readsOnly_skip fun _ s₁ _ =>
        (h.operand s₁).bind fun _ _ _ hoperand =>
          .add _ rfl (storesAll_cons hoperand (storesAll_nil _)))
  | identifier => exact h.identifier s
  | grouping =>
      exact .read_bind (readsOnly_expect _ _) fun _ s₁ _ =>
        (h.expression s₁).bind fun _ _ _ hinner =>
          .read_bind (readsOnly_expect _ _) fun _ _ hread => .pure rfl (hinner.mono hread)
  | block => exact h.block s
  | binding =>
      exact .read_bind (readsOnly_expect _ _) fun _ _ _ =>
        .read_bind (readsOnly_expect _ _) fun _ _ _ =>
          .read_bind (readsOnly_optionalType (by decide)) fun _ _ _ =>
            .read_bind (readsOnly_expect _ _) fun _ s₁ _ =>
              (h.expression s₁).bind fun _ _ _ hvalue =>
                .add _ rfl (storesAll_cons hvalue (storesAll_nil _))
  | cond => exact h.cond s
  | jump => exact h.jump s
  | operand => exact h.operand s
  | expression => exact h.expression s

lemma arguments_succ (s : State) :
    Follows (argumentsWithin tables (n + 1)) (Parsing.argumentsWithin tables (n + 1))
      (List.map Tree.id) StoresAll s := by
  rw [argumentsWithin, Parsing.argumentsWithin]
  refine (h.expression s).bind fun argument s₁ _ hargument => .kind_bind fun kind => ?_
  cases kind with
  | comma =>
      exact .read_bind readsOnly_skip fun _ s₂ hread =>
        (h.arguments s₂).bind fun others s₃ hbetween hothers =>
          .pure rfl (storesAll_cons ((hargument.mono hread).mono hbetween) hothers)
  | rightParen => exact .pure rfl (storesAll_cons hargument (storesAll_nil _))
  | _ => exact .failUnexpected _

lemma block_succ (s : State) :
    Follows (blockWithin tables (n + 1)) (Parsing.blockWithin tables (n + 1)) Tree.id Arena.Stores
      s := by
  rw [blockWithin, Parsing.blockWithin]
  exact .read_bind (readsOnly_expect _ _) fun start _ _ =>
    .read_bind (readsOnly_requireStatement _) fun _ s₁ _ =>
      (h.statements s₁).bind fun statements _ _ hstatements =>
        .read_bind (readsOnly_expect _ _) fun _ _ hread => .add _ rfl (hstatements.mono hread)

lemma statements_succ (s : State) :
    Follows (statementsWithin tables (n + 1)) (Parsing.statementsWithin tables (n + 1))
      (List.map Tree.id) StoresAll s := by
  rw [statementsWithin, Parsing.statementsWithin]
  refine .kind_bind fun kind => ?_
  split_ifs
  · exact .pure rfl (storesAll_nil _)
  · exact (h.expression s).bind fun statement s₁ _ hstatement =>
      (follows_statementEnd hstatement).bind fun _ s₂ hread _ =>
        (h.statements s₂).bind fun others s₃ hbetween hothers =>
          .pure rfl (storesAll_cons ((hstatement.mono hread).mono hbetween) hothers)

end FollowsAt

/-- **By numbers.** With any number of steps, the parser by numbers follows the parser: whatever it
looks up is stored. -/
lemma followsAt (tables : Tables) (n : ℕ) : FollowsAt tables n := by
  induction n with
  | zero => exact .zero
  | succ n ih =>
      exact ⟨ih.expression_succ, fun least {_ _} hleft => ih.climb_succ least hleft,
        ih.operand_succ, ih.primary_succ, ih.arguments_succ, ih.block_succ, ih.statements_succ⟩

/-! ### Programs -/

lemma follows_function (s : State) :
    Follows (function tables) (Parsing.function tables) id Anything s :=
  .read_bind readsOnly_prototype fun _ s₁ _ =>
    (Follows.withinBudget fun n => (followsAt tables n).block s₁).bind fun _ _ _ _ =>
      .pure rfl trivial

lemma follows_item (s : State) : Follows (item tables) (Parsing.item tables) id Anything s := by
  refine .kind_bind fun kind => ?_
  cases kind with
  | funcWord => exact (follows_function s).map (fun _ => rfl) fun _ _ _ => trivial
  | externWord =>
      exact (readsOnly_declaration.follows s).map (fun _ => rfl) fun _ _ _ => trivial
  | _ =>
      exact .read_bind readsOnly_lexeme fun _ _ _ =>
        .read_bind readsOnly_location fun _ _ _ => .fail _ _

lemma follows_itemsWithin (n : ℕ) (s : State) :
    Follows (itemsWithin tables n) (Parsing.itemsWithin tables n) id Anything s := by
  induction n generalizing s with
  | zero => rfl
  | succ n ih =>
      rw [itemsWithin, Parsing.itemsWithin]
      refine .get_bind ?_
      split_ifs
      · exact .pure rfl trivial
      · exact (follows_item s).bind fun _ s₁ _ _ => (ih s₁).bind fun _ _ _ _ => .pure rfl trivial

/-- A program is read from its tokens alone. -/
lemma program_eq (s : State) : program tables s = lift (Parsing.program tables) s := by
  have hitems : Follows (withinBudget (itemsWithin tables))
      (Parsing.withinBudget (Parsing.itemsWithin tables)) id Anything s :=
    .withinBudget fun n => follows_itemsWithin n s
  unfold Follows at hitems
  simp only [program, lift, Parsing.program, Bind.bind, EStateM.bind]
  cases hrun : Parsing.withinBudget (Parsing.itemsWithin tables) s with
  | ok is s' =>
      rw [hrun] at hitems
      rw [hitems.1]
      rfl
  | error e s' =>
      rw [hrun] at hitems
      rw [hitems]

/-- **A program without a fault.** On the way to the program that some tokens make, every number
that is looked up is that of a stored expression; the program is the one that the parser gives. -/
lemma parse_eq (tokens : List Token) (log : Log) :
    parse tokens log = .ok (Fern.parse tokens log) := by
  rw [parse, EStateM.run, program_eq, lift, Fern.parse, EStateM.run]
  cases Parsing.program .standard (.ofTokens tokens) with
  | ok p s' => rfl
  | error e s' =>
      cases e with
      | finding d => rfl
      | exhausted => rfl

end Parsing.Guarded

end Fern
