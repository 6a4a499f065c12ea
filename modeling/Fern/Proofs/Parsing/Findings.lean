import Mathlib.Tactic
import Fern.Parsing.Item

/-!
Where the parser reports what it finds, and where it places what it stores.

* `Located`: all places in a state are of a given sort.
* `StaysIn`: from such a state, a computation fails with an error of the parser at a place of that
  sort or leads to such a state. `StaysIn.bind` puts computations together.
* `PlacesAt`: this for all parts of the parser of expressions, with a given number of steps;
  `placesAt` is the induction on this number.
* `Log.LiesIn`, `Program.LiesIn`: what is recorded, and what a program consists of, is at places of
  a given sort.
* `finding_of_program`: what is found is an error of the parser, where a token is.
* `liesIn_of_parse`: a problem is reported, and expressions and functions are placed, where tokens
  are.
-/

namespace Fern

/-- The expressions, the declarations and the functions of a program are at places of the sort `P`.
-/
structure Program.LiesIn (P : Location → Prop) (p : Program) : Prop where
  arena : ∀ node ∈ p.arena.nodes, P node.location
  declarations : ∀ q ∈ p.declarations, P q.location
  functions : ∀ f ∈ p.functions, P f.prototype.location

/-- All that is recorded is about places of the sort `P`. -/
structure Log.LiesIn (P : Location → Prop) (g : Log) : Prop where
  errors : ∀ d ∈ g.errors, P d.location
  warnings : ∀ d ∈ g.warnings, P d.location

lemma Log.LiesIn.record {P : Location → Prop} {g : Log} {d : Diagnostic} (h : g.LiesIn P)
    (hd : P d.location) : (g.record d).LiesIn P := by
  refine ⟨fun d' hd' => ?_, h.warnings⟩
  rcases List.mem_append.mp hd' with hd' | hd'
  · exact h.errors d' hd'
  · exact List.mem_singleton.mp hd' ▸ hd

/-- An error of the parser, without notes. -/
structure Diagnostic.FromParser (d : Diagnostic) : Prop where
  severity : d.severity = .error
  phase : d.phase = .parsing
  notes : d.notes = []

namespace Parsing

/-- The places of the tokens still to be read, of the last token and of all stored expressions are
of the sort `P`. -/
structure Located (P : Location → Prop) (s : State) : Prop where
  rest : ∀ t ∈ s.rest, P t.location
  last : P s.last
  arena : ∀ node ∈ s.arena.nodes, P node.location

/-- What is found is an error of the parser at a place of the sort `P`. -/
def Failure.LiesIn (P : Location → Prop) : Failure → Prop
  | .finding d => d.FromParser ∧ P d.location
  | .exhausted => True

/-- A run ends in a state with places of the sort `P` and with something `good`, or with a problem
at such a place. -/
def EndsIn (P : Location → Prop) {α : Type} (good : α → Prop) :
    EStateM.Result Failure State α → Prop
  | .ok a s => Located P s ∧ good a
  | .error e _ => e.LiesIn P

/-- From every state with places of the sort `P`, a run ends in such a state and with something
`good`, or with a problem at such a place. -/
def StaysIn (P : Location → Prop) {α : Type} (x : Parse α) (good : α → Prop) : Prop :=
  ∀ s, Located P s → EndsIn P good (x s)

/-- Whatever it is. -/
abbrev Anything {α : Type} (_ : α) : Prop := True

/-- An expression at a place of the sort `P`. -/
def PlacedIn (P : Location → Prop) (t : Tree) : Prop := P t.location

section Steps

variable {P : Location → Prop} {α β : Type} {good : α → Prop} {good' : β → Prop}

/-- The place that the next token, or the end of the input, is reported at. -/
lemma Located.location {s : State} (h : Located P s) : P s.location := by
  unfold State.location
  split
  · exact h.last
  · next t ts hs => exact h.rest t (by simp [hs])

lemma Located.tail {s : State} (h : Located P s) : Located P { s with rest := s.rest.tail } :=
  ⟨fun t ht => h.rest t (List.mem_of_mem_tail ht), h.last, h.arena⟩

namespace StaysIn

lemma bind {x : Parse α} {f : α → Parse β} (hx : StaysIn P x good)
    (hf : ∀ a, good a → StaysIn P (f a) good') : StaysIn P (x >>= f) good' := by
  intro s hs
  have h := hx s hs
  simp only [Bind.bind, EStateM.bind]
  cases hrun : x s with
  | ok a s' =>
      rw [hrun] at h
      exact hf a h.2 s' h.1
  | error e s' =>
      rw [hrun] at h
      exact h

lemma pure {a : α} (h : good a) : StaysIn P (Pure.pure a) good := fun _ hs => ⟨hs, h⟩

lemma weaken {good' : α → Prop} {x : Parse α} (hx : StaysIn P x good)
    (h : ∀ a, good a → good' a) : StaysIn P x good' := by
  intro s hs
  have hrun := hx s hs
  cases hxs : x s with
  | ok a s' =>
      rw [hxs] at hrun
      exact ⟨hrun.1, h a hrun.2⟩
  | error e s' =>
      rw [hxs] at hrun
      exact hrun

lemma map {x : Parse α} {f : α → β} (hx : StaysIn P x good) (h : ∀ a, good a → good' (f a)) :
    StaysIn P (f <$> x) good' := by
  rw [map_eq_pure_bind]
  exact hx.bind fun a ha => .pure (h a ha)

lemma fail {p : Problem} {l : Location} (hp : p.phase = .parsing) (hl : P l) :
    StaysIn P (fail p l) good :=
  fun _ _ => ⟨⟨rfl, hp, rfl⟩, hl⟩

lemma failUnexpected {expected : String} : StaysIn P (failUnexpected expected) good :=
  fun _ hs => ⟨⟨rfl, rfl, rfl⟩, hs.location⟩

lemma exhausted : StaysIn P (throw .exhausted) good := fun _ _ => trivial

lemma get : StaysIn P get (Located P) := fun _ hs => ⟨hs, hs⟩

lemma kind : StaysIn P kind Anything := fun _ hs => ⟨hs, trivial⟩

lemma location : StaysIn P location P := fun _ hs => ⟨hs, hs.location⟩

lemma lexeme : StaysIn P lexeme Anything := fun _ hs => ⟨hs, trivial⟩

lemma skip : StaysIn P skip Anything := fun _ hs => ⟨hs.tail, trivial⟩

lemma advance : StaysIn P advance (fun o => ∀ t ∈ o, P t.location) :=
  fun _ hs => ⟨hs.tail, fun t ht => hs.rest t (List.mem_of_mem_head? ht)⟩

lemma expect {k : Token.Kind} {expected : String} :
    StaysIn P (expect k expected) (fun t => P t.location) := by
  intro s hs
  unfold Parsing.expect
  split
  · next t ts hrest =>
      have htokens : ∀ u ∈ t :: ts, P u.location := hrest ▸ hs.rest
      split
      · exact ⟨⟨fun u hu => htokens u (.tail _ hu), hs.last, hs.arena⟩, htokens t (.head _)⟩
      · exact failUnexpected s hs
  · exact failUnexpected s hs

lemma add {shape : Shape Tree} {l : Location} (hl : P l) :
    StaysIn P (add shape l) (PlacedIn P) := by
  intro s hs
  refine ⟨⟨hs.rest, hs.last, fun node hnode => ?_⟩, hl⟩
  rcases Array.mem_push.mp hnode with hnode | rfl
  · exact hs.arena node hnode
  · exact hl

lemma optionally {k : Token.Kind} {x : Parse α} (hx : StaysIn P x Anything) :
    StaysIn P (optionally k x) Anything := by
  refine kind.bind fun next _ => ?_
  split
  · exact skip.bind fun _ _ => hx.map fun _ _ => trivial
  · exact .pure trivial

lemma listUnless {k : Token.Kind} {x : Parse (List α)} (hx : StaysIn P x Anything) :
    StaysIn P (listUnless k x) Anything := by
  refine kind.bind fun next _ => ?_
  split
  · exact .pure trivial
  · exact hx

lemma withinBudget {x : ℕ → Parse α} (hx : ∀ n, StaysIn P (x n) good) :
    StaysIn P (withinBudget x) good := fun _ hs => hx _ _ hs

end StaysIn

/-! ### Types and literals -/

lemma staysIn_references : StaysIn P references Anything := fun _ hs =>
  ⟨⟨fun t ht => hs.rest t ((List.dropWhile_suffix _).subset ht), hs.last, hs.arena⟩, trivial⟩

lemma staysIn_type : StaysIn P type Anything := by
  refine staysIn_references.bind fun depth _ => StaysIn.expect.bind fun token htoken => ?_
  split
  · exact .pure trivial
  · exact .fail rfl htoken

lemma staysIn_number : StaysIn P number (PlacedIn P) :=
  StaysIn.get.bind fun _ hs => StaysIn.skip.bind fun _ _ => .add hs.location

lemma staysIn_boolean : StaysIn P boolean (PlacedIn P) :=
  StaysIn.get.bind fun _ hs => StaysIn.skip.bind fun _ _ => .add hs.location

lemma staysIn_string : StaysIn P string (PlacedIn P) :=
  StaysIn.expect.bind fun _ htoken => .add htoken

lemma staysIn_char : StaysIn P char (PlacedIn P) :=
  StaysIn.expect.bind fun _ htoken => .add htoken

/-- The operator is reported if its left operand cannot be assigned to. -/
lemma staysIn_join {rule : OperatorRule} {left right : Tree} {operator : Token}
    (hleft : PlacedIn P left) (hoperator : P operator.location) :
    StaysIn P (join rule left operator right) (PlacedIn P) := by
  unfold join
  split
  · exact .add hoperator
  · exact .fail rfl hoperator
  · split
    · exact .add hleft
    · exact .add hoperator

/-- A block without statements is reported where it begins. -/
lemma staysIn_requireStatement {l : Location} (hl : P l) :
    StaysIn P (requireStatement l) Anything := by
  refine StaysIn.kind.bind fun next _ => ?_
  split
  · exact .fail rfl hl
  · exact .pure trivial

lemma staysIn_statementEnd {t : Tree} : StaysIn P (statementEnd t) Anything := by
  refine StaysIn.kind.bind fun next _ => ?_
  split
  · exact .skip
  · exact .pure trivial
  · split
    · exact .pure trivial
    · exact StaysIn.lexeme.bind fun _ _ => StaysIn.location.bind fun _ hl => .fail rfl hl

end Steps

/-! ### Expressions -/

variable {P : Location → Prop} {T : Tables} {n : ℕ}

/-- With `n` steps, all parts of the parser stay at places of the sort `P`, and expressions are
placed at such places. -/
structure PlacesAt (P : Location → Prop) (T : Tables) (n : ℕ) : Prop where
  expression : StaysIn P (expressionWithin T n) (PlacedIn P)
  climb : ∀ least left, PlacedIn P left → StaysIn P (climbWithin T n least left) (PlacedIn P)
  operand : StaysIn P (operandWithin T n) (PlacedIn P)
  primary : ∀ rule, StaysIn P (primaryWithin T n rule) (PlacedIn P)
  arguments : StaysIn P (argumentsWithin T n) Anything
  block : StaysIn P (blockWithin T n) (PlacedIn P)
  statements : StaysIn P (statementsWithin T n) Anything

namespace PlacesAt

lemma climb_succ (h : PlacesAt P T n) (least : ℤ) (left : Tree) (hleft : PlacedIn P left) :
    StaysIn P (climbWithin T (n + 1) least left) (PlacedIn P) := by
  rw [climbWithin]
  refine StaysIn.kind.bind fun next _ => ?_
  split
  · exact .pure hleft
  · next power rule hrule =>
      split
      · exact .pure hleft
      · refine StaysIn.advance.bind fun operator hoperator => ?_
        split
        · exact .pure hleft
        · next operator =>
            refine h.operand.bind fun first hfirst => StaysIn.kind.bind fun next' _ => ?_
            have hright : StaysIn P (if power.level < (T.power next').level then
                climbWithin T n (power.level + 1) first else Pure.pure first) (PlacedIn P) := by
              split
              · exact h.climb _ _ hfirst
              · exact .pure hfirst
            refine hright.bind fun right _ => ?_
            exact (staysIn_join hleft (hoperator operator rfl)).bind fun joined hjoined =>
              h.climb _ _ hjoined

lemma identifier (h : PlacesAt P T n) :
    StaysIn P (primaryWithin T (n + 1) .identifier) (PlacedIn P) := by
  rw [primaryWithin]
  refine StaysIn.expect.bind fun token htoken => StaysIn.kind.bind fun next _ => ?_
  split
  · refine StaysIn.skip.bind fun _ _ => h.arguments.listUnless.bind fun arguments _ => ?_
    exact StaysIn.expect.bind fun _ _ => .add htoken
  · refine (StaysIn.add htoken).bind fun operand _ => StaysIn.location.bind fun l hl => ?_
    refine StaysIn.skip.bind fun _ _ => h.expression.bind fun index _ => ?_
    exact StaysIn.expect.bind fun _ _ => .add hl
  · exact .add htoken

/-- However an expression begins, it is placed where a token is. -/
lemma primary_succ (h : PlacesAt P T n) (rule : PrimaryRule) :
    StaysIn P (primaryWithin T (n + 1) rule) (PlacedIn P) := by
  cases rule with
  | number => exact staysIn_number
  | string => exact staysIn_string
  | char => exact staysIn_char
  | boolean => exact staysIn_boolean
  | unary =>
      refine StaysIn.get.bind fun s hs => StaysIn.skip.bind fun _ _ => ?_
      exact h.operand.bind fun operand _ => .add hs.location
  | identifier => exact h.identifier
  | grouping =>
      refine StaysIn.expect.bind fun _ _ => h.expression.bind fun inner hinner => ?_
      exact StaysIn.expect.bind fun _ _ => .pure hinner
  | block => exact h.block
  | binding =>
      refine StaysIn.expect.bind fun start hstart => StaysIn.expect.bind fun name _ => ?_
      refine staysIn_type.optionally.bind fun stated _ => StaysIn.expect.bind fun _ _ => ?_
      exact h.expression.bind fun value _ => .add hstart
  | cond =>
      refine StaysIn.expect.bind fun start hstart => h.expression.bind fun condition _ => ?_
      refine h.block.bind fun thenBlock _ => ?_
      exact (h.block.weaken fun _ _ => trivial).optionally.bind fun elseBlock _ => .add hstart
  | jump =>
      refine StaysIn.get.bind fun s hs => StaysIn.skip.bind fun _ _ =>
        StaysIn.kind.bind fun next _ => ?_
      have hvalue : StaysIn P (if s.kind = .returnWord ∧ next ≠ .semicolon ∧ next ≠ .rightBrace then
          some <$> expressionWithin T n else Pure.pure none) Anything := by
        split
        · exact h.expression.map fun _ _ => trivial
        · exact .pure trivial
      exact hvalue.bind fun value _ => .add hs.location
  | operand => exact h.operand
  | expression => exact h.expression

end PlacesAt

/-- However many steps they are allowed, all parts of the parser stay where tokens are. -/
lemma placesAt (P : Location → Prop) (T : Tables) (n : ℕ) : PlacesAt P T n := by
  induction n with
  | zero => exact ⟨.exhausted, fun _ _ _ => .exhausted, .exhausted, fun _ => .exhausted, .exhausted,
      .exhausted, .exhausted⟩
  | succ n ih =>
      refine ⟨?_, ih.climb_succ, ?_, ih.primary_succ, ?_, ?_, ?_⟩
      · rw [expressionWithin]
        exact ih.operand.bind fun left hleft => ih.climb _ _ hleft
      · rw [operandWithin]
        refine StaysIn.kind.bind fun next _ => ?_
        split
        · exact ih.primary _
        · exact StaysIn.lexeme.bind fun _ _ => StaysIn.location.bind fun _ hl => .fail rfl hl
      · rw [argumentsWithin]
        refine ih.expression.bind fun argument _ => StaysIn.kind.bind fun next _ => ?_
        split
        · exact StaysIn.skip.bind fun _ _ => ih.arguments.bind fun _ _ => .pure trivial
        · exact .pure trivial
        · exact .failUnexpected
      · rw [blockWithin]
        refine StaysIn.expect.bind fun start hstart => ?_
        refine (staysIn_requireStatement hstart).bind fun _ _ => ?_
        refine ih.statements.bind fun statements _ => ?_
        exact StaysIn.expect.bind fun _ _ => .add hstart
      · rw [statementsWithin]
        refine StaysIn.kind.bind fun next _ => ?_
        split
        · exact .pure trivial
        · refine ih.expression.bind fun statement _ => staysIn_statementEnd.bind fun _ _ => ?_
          exact ih.statements.bind fun _ _ => .pure trivial

/-! ### Functions and declarations -/

lemma staysIn_parameter : StaysIn P parameter Anything := by
  refine StaysIn.expect.bind fun name _ => StaysIn.expect.bind fun _ _ => ?_
  exact staysIn_type.bind fun _ _ => .pure trivial

lemma staysIn_parametersWithin (n : ℕ) : StaysIn P (parametersWithin n) Anything := by
  induction n with
  | zero => exact .exhausted
  | succ n ih =>
      rw [parametersWithin]
      refine staysIn_parameter.bind fun first _ => StaysIn.kind.bind fun next _ => ?_
      split
      · exact StaysIn.skip.bind fun _ _ => ih.bind fun _ _ => .pure trivial
      · exact .pure trivial
      · exact .failUnexpected

lemma staysIn_prototype : StaysIn P prototype (fun p => P p.location) := by
  refine StaysIn.expect.bind fun _ _ => StaysIn.expect.bind fun name hname => ?_
  refine StaysIn.expect.bind fun _ _ => ?_
  refine (StaysIn.withinBudget staysIn_parametersWithin).listUnless.bind fun parameters _ => ?_
  refine StaysIn.expect.bind fun _ _ => staysIn_type.optionally.bind fun _ _ => ?_
  exact .pure hname

/-- A function or a declaration whose name is at a place of the sort `P`. -/
def Item.LiesIn (P : Location → Prop) : Item → Prop
  | .function f => P f.prototype.location
  | .declaration p => P p.location

lemma staysIn_item : StaysIn P (item T) (Item.LiesIn P) := by
  refine StaysIn.kind.bind fun next _ => ?_
  split
  · refine StaysIn.map (staysIn_prototype.bind fun p hp => ?_) fun _ hf => hf
    exact (StaysIn.withinBudget fun n => (placesAt P T n).block).bind fun body _ => .pure hp
  · refine StaysIn.map ?_ fun _ hp => hp
    refine StaysIn.expect.bind fun _ _ => staysIn_prototype.bind fun p hp => ?_
    exact StaysIn.expect.bind fun _ _ => .pure hp
  · exact StaysIn.lexeme.bind fun _ _ => StaysIn.location.bind fun _ hl => .fail rfl hl

lemma staysIn_itemsWithin (n : ℕ) :
    StaysIn P (itemsWithin T n) (fun is => ∀ i ∈ is, i.LiesIn P) := by
  induction n with
  | zero => exact .exhausted
  | succ n ih =>
      rw [itemsWithin]
      refine StaysIn.get.bind fun s _ => ?_
      split
      · exact .pure (by simp)
      · refine staysIn_item.bind fun first hfirst => ih.bind fun others hothers => .pure ?_
        exact List.forall_mem_cons.mpr ⟨hfirst, hothers⟩

lemma staysIn_program : StaysIn P (program T) (Program.LiesIn P) := by
  have htake : StaysIn P takeArena (fun a => ∀ node ∈ a.nodes, P node.location) := fun _ hs =>
    ⟨⟨hs.rest, hs.last, by simp [Arena.empty]⟩, hs.arena⟩
  refine (StaysIn.withinBudget staysIn_itemsWithin).bind fun items hitems => ?_
  refine htake.bind fun arena harena => .pure ⟨harena, fun q hq => ?_, fun f hf => ?_⟩
  · obtain ⟨i, hi, hq⟩ := List.mem_filterMap.mp hq
    cases i with
    | function f => cases hq
    | declaration p =>
        cases hq
        exact hitems _ hi
  · obtain ⟨i, hi, hf⟩ := List.mem_filterMap.mp hf
    cases i with
    | function f =>
        cases hf
        exact hitems _ hi
    | declaration p => cases hf

/-- At the beginning of some tokens all places are those of tokens. -/
lemma located_ofTokens {tokens : List Token} (htokens : ∀ t ∈ tokens, P t.location)
    (hne : tokens ≠ []) : Located P (.ofTokens tokens) where
  rest := htokens
  last := by
    simp only [State.ofTokens, List.getLast?_eq_some_getLast hne, Option.map_some, Option.getD_some]
    exact htokens _ (List.getLast_mem hne)
  arena := by simp [State.ofTokens, Arena.empty]

/-- What the parser finds is an error of its own at the place of a token. -/
lemma finding_of_program {tokens : List Token} {d : Diagnostic} {s' : State}
    (h : program T (.ofTokens tokens) = .error (.finding d) s') :
    d.FromParser ∧ ∃ t ∈ tokens, t.location = d.location := by
  have hne : tokens ≠ [] := by
    rintro rfl
    cases h
  have hends := staysIn_program (T := T) _
    (located_ofTokens (P := fun l => ∃ t ∈ tokens, t.location = l) (fun t ht => ⟨t, ht, rfl⟩) hne)
  rw [h] at hends
  exact hends

/-- **Findings of the parser.** What the parser records is at the place of a token, and so is all
that a program consists of. -/
lemma liesIn_of_parse {tokens : List Token} (htokens : ∀ t ∈ tokens, P t.location) {log : Log}
    (hlog : log.LiesIn P) :
    (parse tokens log).2.LiesIn P ∧ ∀ q, (parse tokens log).1 = some q → q.LiesIn P := by
  by_cases hempty : tokens = []
  · -- without tokens there is no place, and the program is empty
    subst hempty
    refine ⟨hlog, fun q hq => ?_⟩
    obtain rfl : {} = q := Option.some.inj hq
    exact ⟨by simp [Arena.empty], by simp, by simp⟩
  · have hends := staysIn_program (T := .standard) _ (located_ofTokens htokens hempty)
    simp only [parse, EStateM.run]
    cases hrun : program .standard (.ofTokens tokens) with
    | ok q s' =>
        rw [hrun] at hends
        refine ⟨hlog, fun q hq => ?_⟩
        cases hq
        exact hends.2
    | error e s' =>
        rw [hrun] at hends
        cases e with
        | exhausted => exact ⟨hlog, fun q hq => by cases hq⟩
        | finding d => exact ⟨hlog.record hends.2, fun q hq => by cases hq⟩

end Parsing

end Fern
