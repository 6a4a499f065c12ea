import Mathlib.Tactic
import Fern.Proofs.Parsing.Headers
import Fern.Proofs.Parsing.Soundness
import Fern.Proofs.Parsing.Reading

/-!
The parser looks no further than at the kind of one token after those that it reads.

* `LocalAt`: a run from a state goes the same way if other tokens follow those that it reads, as
  long as the first of them is of the same kind.
* `LocalAt.bind` and its companions: how such runs are put together.
* `LocalSteps`: all parts of the parser are such runs, with a given number of steps; `localSteps` is
  the induction on this number.
* `climbWithin_of_endsWithBlock`, `operandWithin_of_endsWithBlock`: of what follows an expression
  that ends with a block it matters only whether it is an operator or `else`.
-/

namespace Fern.Parsing

variable {α β : Type} {n : ℕ} {s s' : State} {ts ts' : List Token} {token : Token}

/-- If the run of `p` from `s` succeeds, it has read some tokens, and succeeds with the same result
where these are followed by others, the first of which is of the same kind as before. -/
def LocalAt (p : Parse α) (s : State) : Prop :=
  ∀ a s', p s = .ok a s' → ∃ read, s.rest = read ++ s'.rest ∧
    ∀ ts, headKind ts = headKind s'.rest → p (s.moved (read ++ ts)) = .ok a (s'.moved ts)

/-! ### Elementary steps -/

lemma headKind_append {us vs : List Token} (h : headKind us = headKind vs) (ts : List Token) :
    headKind (ts ++ us) = headKind (ts ++ vs) := by
  cases ts with
  | nil => exact h
  | cons t ts => rfl

namespace LocalAt

/-- A run that fails. -/
lemma of_ne_ok {p : Parse α} (h : ∀ a s', p s ≠ .ok a s') : LocalAt p s :=
  fun a s' hrun => absurd hrun (h a s')

/-- One run after the other. -/
lemma bind {p : Parse α} {f : α → Parse β} (hp : LocalAt p s)
    (hf : ∀ a s₁, p s = .ok a s₁ → LocalAt (f a) s₁) : LocalAt (p >>= f) s := by
  intro b s' hrun
  obtain ⟨a, s₁, ha, hb⟩ := bind_eq_ok.mp hrun
  obtain ⟨read, hread, hp⟩ := hp a s₁ ha
  obtain ⟨read', hread', hf⟩ := hf a s₁ ha b s' hb
  refine ⟨read ++ read', by rw [hread, hread', List.append_assoc], fun ts hts => ?_⟩
  have hnext : headKind (read' ++ ts) = headKind s₁.rest := by
    rw [hread']
    exact headKind_append hts read'
  rw [List.append_assoc]
  exact bind_eq_ok.mpr ⟨a, _, hp _ hnext, hf ts hts⟩

lemma pure (a : α) : LocalAt (Pure.pure a) s := by
  intro b s' hrun
  obtain ⟨rfl, rfl⟩ := pure_eq_ok.mp hrun
  exact ⟨[], rfl, fun ts _ => rfl⟩

lemma map {p : Parse α} {f : α → β} (hp : LocalAt p s) : LocalAt (f <$> p) s := by
  rw [map_eq_pure_bind]
  exact hp.bind fun a s₁ _ => .pure (f a)

lemma add (shape : Shape Tree) (l : Location) : LocalAt (Parsing.add shape l) s := by
  intro t s' hrun
  obtain ⟨rfl, rfl⟩ := add_eq_ok.mp hrun
  exact ⟨[], rfl, fun ts _ => rfl⟩

lemma expect (k : Token.Kind) (e : String) : LocalAt (Parsing.expect k e) s := by
  intro t s' hrun
  obtain ⟨ts, hs, hk, rfl⟩ := expect_eq_ok.mp hrun
  exact ⟨[t], hs, fun us _ => expect_eq_ok.mpr ⟨us, rfl, hk, rfl⟩⟩

/-- Looking at the kind of the next token. -/
lemma kind_bind {f : Token.Kind → Parse β} (h : LocalAt (f s.kind) s) :
    LocalAt (kind >>= f) s := by
  refine .bind ?_ fun k s₁ hk => ?_
  · intro k s' hk
    cases hk
    refine ⟨[], rfl, fun ts hts => ?_⟩
    have hkind : (s.moved ts).kind = s.kind := by
      rw [State.kind_eq (State.rest_moved s ts), hts, ← State.kind_eq rfl]
    rw [List.nil_append, ← hkind]
    rfl
  · cases hk
    exact h

/-- A run that begins by reading the next token. -/
lemma of_read {p q : Parse α} (hs : s.rest = token :: ts)
    (h : ∀ us, p (s.moved (token :: us)) = q (s.moved us)) (hq : LocalAt q (s.moved ts)) :
    LocalAt p s := by
  have hmoved : s = s.moved (token :: ts) := by rw [← hs]; rfl
  intro a s' hrun
  rw [hmoved, h] at hrun
  obtain ⟨read, hread, hq⟩ := hq a s' hrun
  rw [State.rest_moved] at hread
  refine ⟨token :: read, by rw [hs, hread, List.cons_append], fun us hus => ?_⟩
  rw [List.cons_append, h]
  exact hq us hus

/-- Reading the next token, whatever it is. -/
lemma advance_bind {f : Option Token → Parse β} (hs : s.rest = token :: ts)
    (h : LocalAt (f (some token)) (s.moved ts)) : LocalAt (advance >>= f) s :=
  .of_read hs (fun _ => rfl) h

/-- Skipping the next token after noting its place. -/
lemma location_bind {f : Location → Unit → Parse β} (hs : s.rest = token :: ts)
    (h : LocalAt (f token.location ()) (s.moved ts)) :
    LocalAt (location >>= fun l => skip >>= f l) s :=
  .of_read hs (fun _ => rfl) h

/-- Skipping the next token after noting what is known of it. -/
lemma get_bind {f : State → Unit → Parse β} (hs : s.rest = token :: ts)
    (hf : ∀ us, f (s.moved (token :: us)) () = f (s.moved [token]) ())
    (h : LocalAt (f (s.moved [token]) ()) (s.moved ts)) :
    LocalAt (get >>= fun s => skip >>= f s) s :=
  .of_read hs (fun us => congrFun (hf us) _) h

/-- Skipping the next token. -/
lemma skip_bind {f : Unit → Parse β} (hs : s.rest = token :: ts) (h : LocalAt (f ()) (s.moved ts)) :
    LocalAt (skip >>= f) s :=
  .of_read hs (fun _ => rfl) h

/-- A part after a mark, or nothing. -/
lemma optionally {k : Token.Kind} {p : Parse α} (hk : k ≠ .endOfInput)
    (h : ∀ s, LocalAt p s) : LocalAt (Parsing.optionally k p) s := by
  refine .kind_bind ?_
  by_cases hkind : s.kind = k
  · obtain ⟨t, ts, hs, -⟩ := State.exists_of_kind hkind hk
    rw [if_pos hkind]
    exact .skip_bind hs (h _).map
  · rw [if_neg hkind]
    exact .pure _

/-- A list, or nothing before the token that closes it. -/
lemma listUnless {k : Token.Kind} {p : Parse (List α)} (h : LocalAt p s) :
    LocalAt (Parsing.listUnless k p) s := by
  refine .kind_bind ?_
  by_cases hkind : s.kind = k
  · rw [if_pos hkind]
    exact .pure _
  · rw [if_neg hkind]
    exact h

end LocalAt

/-! ### Types and operators -/

lemma IsType.exists_read {ty : Ty} (h : IsType ts ty ts') :
    ∃ read, ts = read ++ ts' ∧ ∀ us, IsType (read ++ us) ty us := by
  induction h with
  | @named name ts base hname known => exact ⟨[name], rfl, fun us => .named hname known⟩
  | @reference mark ts ty ts' hmark _ ih =>
      obtain ⟨read, rfl, h⟩ := ih
      exact ⟨mark :: read, rfl, fun us => .reference hmark (h us)⟩

lemma localAt_type (s : State) : LocalAt type s := by
  intro ty s' hrun
  obtain ⟨ts', htype, rfl⟩ := type_eq_ok.mp hrun
  obtain ⟨read, hread, h⟩ := htype.exists_read
  exact ⟨read, hread, fun us _ => type_eq_ok.mpr ⟨us, h us, rfl⟩⟩

lemma localAt_join (rule : OperatorRule) (left : Tree) (operator : Token) (right : Tree) :
    LocalAt (join rule left operator right) s := by
  unfold join
  split
  · exact .add _ _
  · exact .of_ne_ok fun _ _ => fail_ne_ok
  · split_ifs
    · exact .add _ _
    · exact .add _ _

lemma localAt_statementEnd (statement : Tree) : LocalAt (statementEnd statement) s := by
  refine .kind_bind ?_
  split
  · next hkind =>
      obtain ⟨t, ts, hs, -⟩ := State.exists_of_kind hkind (by decide)
      exact .of_read hs (q := pure ()) (fun _ => rfl) (.pure _)
  · exact .pure _
  · split_ifs
    · exact .pure _
    · exact .of_ne_ok fun _ _ => fail_ne_ok

/-! ### All parts of the parser -/

/-- With `n` steps the parts of the parser look no further than at the next token. -/
structure LocalSteps (n : ℕ) : Prop where
  expression : ∀ s, LocalAt (expressionWithin .standard n) s
  climb : ∀ least left s, LocalAt (climbWithin .standard n least left) s
  operand : ∀ s, LocalAt (operandWithin .standard n) s
  primary : ∀ {rule s}, Tables.standard.primary s.kind = some rule →
    LocalAt (primaryWithin .standard n rule) s
  arguments : ∀ s, LocalAt (argumentsWithin .standard n) s
  block : ∀ s, LocalAt (blockWithin .standard n) s
  statements : ∀ s, LocalAt (statementsWithin .standard n) s

namespace LocalSteps

lemma climb_succ (h : LocalSteps n) (least : ℤ) (left : Tree) (s : State) :
    LocalAt (climbWithin .standard (n + 1) least left) s := by
  rw [climbWithin]
  refine .kind_bind ?_
  cases hrule : Tables.standard.operator s.kind with
  | none => exact .pure _
  | some found =>
      obtain ⟨power, rule⟩ := found
      have hkind : s.kind ≠ .endOfInput := by
        intro hend
        rw [hend] at hrule
        cases hrule
      obtain ⟨operator, ts, hs, -⟩ := State.exists_of_kind rfl hkind
      dsimp only
      split_ifs
      · exact .pure _
      · refine .advance_bind hs ?_
        refine (h.operand _).bind fun first s₁ _ => .kind_bind (.bind ?_ fun right s₂ _ =>
          (localAt_join _ _ _ _).bind fun joined s₃ _ => h.climb _ _ _)
        split_ifs
        · exact h.climb _ _ _
        · exact .pure _

lemma identifier_succ (h : LocalSteps n) (s : State) :
    LocalAt (primaryWithin .standard (n + 1) .identifier) s := by
  rw [primaryWithin]
  refine (LocalAt.expect _ _).bind fun token s₁ _ => .kind_bind ?_
  split
  · next hkind =>
      obtain ⟨opening, ts, hs, -⟩ := State.exists_of_kind hkind (by decide)
      exact .skip_bind hs ((LocalAt.listUnless (h.arguments _)).bind fun arguments s₂ _ =>
        (LocalAt.expect _ _).bind fun _ _ _ => .add _ _)
  · next hkind =>
      obtain ⟨opening, ts, hs, -⟩ := State.exists_of_kind hkind (by decide)
      refine (LocalAt.add _ _).bind fun operand s₂ hadd => ?_
      obtain ⟨-, rfl⟩ := add_eq_ok.mp hadd
      exact .location_bind hs ((h.expression _).bind fun index s₃ _ =>
        (LocalAt.expect _ _).bind fun _ _ _ => .add _ _)
  · exact .add _ _

lemma primary_succ (h : LocalSteps n) {rule : PrimaryRule} {s : State}
    (hrule : Tables.standard.primary s.kind = some rule) :
    LocalAt (primaryWithin .standard (n + 1) rule) s := by
  obtain ⟨token, ts, hs, -⟩ := exists_of_primary hrule
  cases rule with
  | number => exact .get_bind hs (fun _ => rfl) (.add _ _)
  | boolean => exact .get_bind hs (fun _ => rfl) (.add _ _)
  | string => exact (LocalAt.expect _ _).bind fun _ _ _ => .add _ _
  | char => exact (LocalAt.expect _ _).bind fun _ _ _ => .add _ _
  | unary =>
      exact .get_bind hs (fun _ => rfl) ((h.operand _).bind fun _ _ _ => .add _ _)
  | identifier => exact h.identifier_succ s
  | grouping =>
      exact (LocalAt.expect _ _).bind fun _ _ _ => (h.expression _).bind fun _ _ _ =>
        (LocalAt.expect _ _).bind fun _ _ _ => .pure _
  | block => exact h.block s
  | binding =>
      exact (LocalAt.expect _ _).bind fun _ _ _ => (LocalAt.expect _ _).bind fun _ _ _ =>
        (LocalAt.optionally (by decide) localAt_type).bind fun _ _ _ =>
          (LocalAt.expect _ _).bind fun _ _ _ => (h.expression _).bind fun _ _ _ => .add _ _
  | cond =>
      exact (LocalAt.expect _ _).bind fun _ _ _ => (h.expression _).bind fun _ _ _ =>
        (h.block _).bind fun _ _ _ =>
          (LocalAt.optionally (by decide) h.block).bind fun _ _ _ => .add _ _
  | jump =>
      refine .get_bind hs (fun _ => rfl) (.kind_bind (.bind ?_ fun _ _ _ => .add _ _))
      split_ifs
      · exact (h.expression _).map
      · exact .pure _
  | operand => exact h.operand s
  | expression => exact h.expression s

lemma arguments_succ (h : LocalSteps n) (s : State) :
    LocalAt (argumentsWithin .standard (n + 1)) s := by
  rw [argumentsWithin]
  refine (h.expression _).bind fun argument s₁ _ => .kind_bind ?_
  split
  · next hkind =>
      obtain ⟨comma, ts, hs, -⟩ := State.exists_of_kind hkind (by decide)
      exact .skip_bind hs ((h.arguments _).bind fun _ _ _ => .pure _)
  · exact .pure _
  · exact .of_ne_ok fun _ _ => failUnexpected_ne_ok

lemma block_succ (h : LocalSteps n) (s : State) : LocalAt (blockWithin .standard (n + 1)) s := by
  rw [blockWithin]
  refine (LocalAt.expect _ _).bind fun opening s₁ _ => .bind ?_ fun _ s₂ _ =>
    (h.statements _).bind fun statements s₃ _ => (LocalAt.expect _ _).bind fun _ _ _ => .add _ _
  refine .kind_bind ?_
  split_ifs
  · exact .of_ne_ok fun _ _ => fail_ne_ok
  · exact .pure _

lemma statements_succ (h : LocalSteps n) (s : State) :
    LocalAt (statementsWithin .standard (n + 1)) s := by
  rw [statementsWithin]
  refine .kind_bind ?_
  split_ifs
  · exact .pure _
  · exact (h.expression _).bind fun statement s₁ _ => (localAt_statementEnd _).bind fun _ _ _ =>
      (h.statements _).bind fun _ _ _ => .pure _

end LocalSteps

/-- **Locality.** Every part of the parser looks no further than at the kind of the next token,
however many steps it is allowed. -/
lemma localSteps (n : ℕ) : LocalSteps n := by
  induction n with
  | zero =>
      refine ⟨?_, ?_, ?_, ?_, ?_, ?_, ?_⟩
      all_goals intros; exact .of_ne_ok fun _ _ => throw_ne_ok
  | succ n ih =>
      refine ⟨fun s => ?_, ih.climb_succ, fun s => ?_, ih.primary_succ, ih.arguments_succ,
        ih.block_succ, ih.statements_succ⟩
      · exact (ih.operand _).bind fun left s₁ _ => ih.climb _ _ _
      · refine .kind_bind ?_
        cases hrule : Tables.standard.primary s.kind with
        | none => exact .of_ne_ok fun _ _ => fail_ne_ok
        | some rule => exact ih.primary hrule

/-! ### Expressions that end with a block -/

/-- Runs that never return an expression that ends with a block. -/
def NeverBlock (p : Parse Tree) : Prop := ∀ s t s', p s = .ok t s' → t.endsWithBlock = false

lemma NeverBlock.bind {p : Parse α} {f : α → Parse Tree} (h : ∀ a, NeverBlock (f a)) :
    NeverBlock (p >>= f) := by
  intro s t s' hrun
  obtain ⟨a, s₁, -, hf⟩ := bind_eq_ok.mp hrun
  exact h a _ _ _ hf

lemma NeverBlock.add {shape : Shape Tree} {l : Location}
    (h : ∀ id, (Tree.node id l shape).endsWithBlock = false) : NeverBlock (Parsing.add shape l) := by
  intro s t s' hrun
  obtain ⟨rfl, rfl⟩ := add_eq_ok.mp hrun
  exact h _

/-- What an operator makes of its operands does not end with a block. -/
lemma neverBlock_join (rule : OperatorRule) (left : Tree) (operator : Token) (right : Tree) :
    NeverBlock (join rule left operator right) := by
  unfold join
  split
  · exact .add fun _ => rfl
  · exact fun _ _ _ h => absurd h fail_ne_ok
  · split_ifs
    · exact .add fun _ => rfl
    · exact .add fun _ => rfl

/-- If what comes of the operators after an operand ends with a block, there were none. -/
lemma climbWithin_of_endsWithBlock {least : ℤ} (hleast : 0 ≤ least) {left t : Tree}
    (h : climbWithin .standard n least left s = .ok t s') (hblock : t.endsWithBlock) :
    t = left ∧ s' = s ∧ level s.kind < least := by
  induction n generalizing left s with
  | zero => exact absurd h throw_ne_ok
  | succ n ih =>
      by_cases hstop : level s.kind < least
      · rw [climbWithin_stop hstop] at h
        cases h
        exact ⟨rfl, rfl, hstop⟩
      · obtain ⟨operator, ts, power, rule, hs, hrule, hle⟩ := exists_operator hleast hstop
        obtain ⟨first, s₁, right, s₂, joined, s₃, -, -, hjoin, hclimb⟩ :=
          (climbWithin_operator_eq_ok hs hrule hle).mp h
        obtain ⟨rfl, -, -⟩ := ih hclimb
        rw [neverBlock_join _ _ _ _ _ _ _ hjoin] at hblock
        cases hblock

/-- A block is read whatever follows it. -/
lemma blockWithin_of_append {t : Tree} (h : blockWithin .standard n s = .ok t s') :
    ∃ opening read, s.rest = opening :: (read ++ s'.rest) ∧
      ∀ us, blockWithin .standard n (s.moved (opening :: (read ++ us))) = .ok t (s'.moved us) := by
  cases n with
  | zero => exact absurd h throw_ne_ok
  | succ n =>
      obtain ⟨opening, ts, statements, s₁, closing, ts₁, hs, hopening, hnonempty, hstatements,
        hrest, hclosing, hadd⟩ := blockWithin_eq_ok.mp h
      obtain ⟨rfl, rfl⟩ := add_eq_ok.mp hadd
      obtain ⟨read, hread, hlocal⟩ := (localSteps n).statements _ _ _ hstatements
      rw [hrest] at hread hlocal
      refine ⟨opening, read ++ [closing], ?_, fun us => ?_⟩
      · rw [hs, ← State.rest_moved s ts, hread]
        simp
      · have hsame : headKind (closing :: us) = headKind (closing :: ts₁) := rfl
        have hkind : (s.moved (read ++ closing :: us)).kind = (s.moved ts).kind := by
          rw [State.kind_eq rfl, State.kind_eq hread]
          exact headKind_append hsame read
        have hrun := hlocal (closing :: us) hsame
        rw [State.moved_moved] at hrun
        exact blockWithin_eq_ok.mpr ⟨opening, read ++ closing :: us, statements,
          s₁.moved (closing :: us), closing, us, by simp, hopening, hkind ▸ hnonempty, hrun, rfl,
          hclosing, add_run _ _ _⟩

/-- What begins with neither a parenthesis, a brace nor `if` does not end with a block. -/
lemma neverBlock_primary {rule : PrimaryRule} {k : Token.Kind}
    (hrule : Tables.standard.primary k = some rule) (hgrouping : rule ≠ .grouping)
    (hblock : rule ≠ .block) (hcond : rule ≠ .cond) :
    NeverBlock (primaryWithin .standard (n + 1) rule) := by
  cases rule with
  | number => exact .bind fun _ => .bind fun _ => .add fun _ => rfl
  | boolean => exact .bind fun _ => .bind fun _ => .add fun _ => rfl
  | string => exact .bind fun _ => .add fun _ => rfl
  | char => exact .bind fun _ => .add fun _ => rfl
  | unary => exact .bind fun _ => .bind fun _ => .bind fun _ => .add fun _ => rfl
  | identifier =>
      rw [primaryWithin]
      refine .bind fun _ => .bind fun k => ?_
      split
      · exact .bind fun _ => .bind fun _ => .bind fun _ => .add fun _ => rfl
      · exact .bind fun _ => .bind fun _ => .bind fun _ => .bind fun _ => .bind fun _ =>
          .add fun _ => rfl
      · exact .add fun _ => rfl
  | binding =>
      exact .bind fun _ => .bind fun _ => .bind fun _ => .bind fun _ => .bind fun _ =>
        .add fun _ => rfl
  | jump => exact .bind fun _ => .bind fun _ => .bind fun _ => .bind fun _ => .add fun _ => rfl
  | grouping => exact absurd rfl hgrouping
  | block => exact absurd rfl hblock
  | cond => exact absurd rfl hcond
  | operand => cases k <;> cases hrule
  | expression => cases k <;> cases hrule

/-- An expression in parentheses is read whatever follows them. -/
lemma grouping_of_append {t : Tree} (hs : s.rest = token :: ts) (htoken : token.kind = .leftParen)
    (h : primaryWithin .standard (n + 1) .grouping s = .ok t s') :
    ∃ read, s.rest = token :: (read ++ s'.rest) ∧ ∀ us,
      primaryWithin .standard (n + 1) .grouping (s.moved (token :: (read ++ us)))
        = .ok t (s'.moved us) := by
  obtain ⟨inner, s₁, closing, ts₁, hinner, hrest, hclosing, rfl, rfl⟩ :=
    (grouping_eq_ok hs htoken).mp h
  obtain ⟨read, hread, hlocal⟩ := (localSteps n).expression _ _ _ hinner
  rw [hrest] at hread hlocal
  refine ⟨read ++ [closing], ?_, fun us => ?_⟩
  · rw [hs, ← State.rest_moved s ts, hread]
    simp
  · have hmoved : (s.moved (token :: (read ++ [closing] ++ us))).rest
        = token :: (read ++ closing :: us) := by simp
    exact (grouping_eq_ok hmoved htoken).mpr ⟨t, s₁.moved (closing :: us), closing, us,
      hlocal (closing :: us) rfl, rfl, hclosing, rfl, rfl⟩

/-- A choice is read whatever follows it, unless it is `else`. -/
lemma cond_of_append {t : Tree} (hs : s.rest = token :: ts) (htoken : token.kind = .ifWord)
    (h : primaryWithin .standard (n + 1) .cond s = .ok t s') :
    ∃ read, s.rest = token :: (read ++ s'.rest) ∧ ∀ us, headKind us ≠ .elseWord →
      primaryWithin .standard (n + 1) .cond (s.moved (token :: (read ++ us)))
        = .ok t (s'.moved us) := by
  obtain ⟨condition, s₁, thenBlock, s₂, elseBlock, s₃, hcondition, hthen, helse, hadd⟩ :=
    (cond_eq_ok hs htoken).mp h
  obtain ⟨rfl, rfl⟩ := add_eq_ok.mp hadd
  obtain ⟨read, hread, hlocal⟩ := (localSteps n).expression _ _ _ hcondition
  obtain ⟨opening, read₁, hread₁, hthen⟩ := blockWithin_of_append hthen
  rw [hread₁] at hread hlocal
  rw [State.rest_moved] at hread
  rcases optionally_eq_ok.mp helse with ⟨hkind, elseTree, hrun, rfl⟩ | ⟨-, rfl, rfl⟩
  · obtain ⟨other, us, hrest, hother⟩ := State.exists_of_kind hkind (by decide)
    obtain ⟨opening₂, read₂, hread₂, helse⟩ := blockWithin_of_append hrun
    rw [State.rest_moved, hrest, List.tail_cons] at hread₂
    refine ⟨read ++ opening :: (read₁ ++ other :: opening₂ :: read₂), ?_, fun us _ => ?_⟩
    · rw [hs, hread, hrest, hread₂]
      simp
    · have hmoved : (s.moved (token :: (read ++ opening :: (read₁ ++ other :: opening₂ :: read₂)
          ++ us))).rest
            = token :: (read ++ opening :: (read₁ ++ other :: opening₂ :: (read₂ ++ us))) := by
        simp
      refine (cond_eq_ok hmoved htoken).mpr ⟨condition, _, thenBlock, _, some elseTree, _,
        hlocal (opening :: _) rfl, hthen _, optionally_eq_ok.mpr (.inl ⟨?_, elseTree, helse us,
          rfl⟩), add_run _ _ _⟩
      exact hother
  · refine ⟨read ++ opening :: read₁, ?_, fun us hus => ?_⟩
    · rw [hs, hread]
      simp
    · have hmoved : (s.moved (token :: (read ++ opening :: read₁ ++ us))).rest
          = token :: (read ++ opening :: (read₁ ++ us)) := by simp
      refine (cond_eq_ok hmoved htoken).mpr ⟨condition, _, thenBlock, _, none, _,
        hlocal (opening :: _) rfl, hthen us, optionally_eq_ok.mpr (.inr ⟨?_, rfl, rfl⟩),
        add_run _ _ _⟩
      rwa [State.kind_eq rfl]

/-- An operand that ends with a block is read whatever follows it, unless it is `else`. -/
lemma operandWithin_of_endsWithBlock {t : Tree} (h : operandWithin .standard n s = .ok t s')
    (hblock : t.endsWithBlock) :
    ∃ first read, s.rest = first :: (read ++ s'.rest) ∧ ∀ us, headKind us ≠ .elseWord →
      operandWithin .standard n (s.moved (first :: (read ++ us))) = .ok t (s'.moved us) := by
  cases n with
  | zero => exact absurd h throw_ne_ok
  | succ n =>
      obtain ⟨rule, hrule, hprimary⟩ := operandWithin_eq_ok.mp h
      cases n with
      | zero => exact absurd hprimary (by rw [primaryWithin]; exact throw_ne_ok)
      | succ n =>
          obtain ⟨token, ts, hs, hmem⟩ := exists_of_primary hrule
          rw [State.kind_of_rest hs] at hrule
          have hagain : ∀ us t s', primaryWithin .standard (n + 1) rule (s.moved (token :: us))
              = .ok t s' → operandWithin .standard (n + 2) (s.moved (token :: us)) = .ok t s' :=
            fun us t s' hrun => operandWithin_eq_ok.mpr ⟨rule, hrule, hrun⟩
          cases rule with
          | grouping =>
              obtain ⟨read, hread, hrun⟩ :=
                grouping_of_append hs (by simpa [beginningKinds] using hmem) hprimary
              exact ⟨token, read, hread, fun us _ => hagain _ _ _ (hrun us)⟩
          | cond =>
              obtain ⟨read, hread, hrun⟩ :=
                cond_of_append hs (by simpa [beginningKinds] using hmem) hprimary
              exact ⟨token, read, hread, fun us hus => hagain _ _ _ (hrun us hus)⟩
          | block =>
              obtain ⟨opening, read, hread, hrun⟩ := blockWithin_of_append hprimary
              obtain ⟨rfl, -⟩ := List.cons.inj (hs.symm.trans hread)
              exact ⟨token, read, hread, fun us _ => hagain _ _ _ (hrun us)⟩
          | _ =>
              have hnever := neverBlock_primary hrule (by simp) (by simp) (by simp) _ _ _ hprimary
              rw [hnever] at hblock
              cases hblock

/-- An expression that ends with a block is read as the same where other tokens follow, unless
there is `else`, exactly if no operator follows. -/
lemma expressionWithin_of_endsWithBlock {t : Tree}
    (h : expressionWithin .standard n s = .ok t s') (hblock : t.endsWithBlock) :
    ∃ first read, s.rest = first :: (read ++ s'.rest) ∧ ∀ us, headKind us ≠ .elseWord →
      ∀ u s'', (expressionWithin .standard n (s.moved (first :: (read ++ us))) = .ok u s'' ∧
        u.endsWithBlock) ↔ level (headKind us) < 0 ∧ u = t ∧ s'' = s'.moved us := by
  cases n with
  | zero => exact absurd h throw_ne_ok
  | succ n =>
      obtain ⟨left, s₁, hoperand, hclimb⟩ := expressionWithin_eq_ok.mp h
      obtain ⟨rfl, rfl, -⟩ := climbWithin_of_endsWithBlock le_rfl hclimb hblock
      obtain ⟨first, read, hread, hagain⟩ := operandWithin_of_endsWithBlock hoperand hblock
      refine ⟨first, read, hread, fun us hus u s'' => ?_⟩
      have hrun := hagain us hus
      constructor
      · rintro ⟨h, hends⟩
        obtain ⟨left, s₁, hleft, hclimb⟩ := expressionWithin_eq_ok.mp h
        rw [hrun] at hleft
        cases hleft
        obtain ⟨rfl, rfl, hlevel⟩ := climbWithin_of_endsWithBlock le_rfl hclimb hends
        exact ⟨hlevel, rfl, rfl⟩
      · rintro ⟨hlevel, rfl, rfl⟩
        refine ⟨expressionWithin_eq_ok.mpr ⟨u, _, hrun, ?_⟩, hblock⟩
        cases n with
        | zero => exact absurd hoperand throw_ne_ok
        | succ n =>
            have hkind : level (s'.moved us).kind < 0 := by rwa [State.kind_eq rfl]
            exact climbWithin_stop hkind

end Fern.Parsing
