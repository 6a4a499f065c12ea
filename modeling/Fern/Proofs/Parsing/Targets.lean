import Mathlib.Tactic
import Fern.Proofs.Parsing.Precedence

/-!
The assignments in a chain of literals and names, and where the parser refuses one.

* `IsAtom`, `IsPlainLink`, `EndsStatement`: operands that are one token, an operator with such an
  operand after it, and what ends a statement.
* `Misplaced`: an assignment to what is no name. `misplaced?` is the first such operator.
* `Passes`, `climbWithin_passes`: operators above a level are read with their operands, and there is
  no assignment among them.
* `Settles`, `climbWithin_settles`: all operators are read, up to the first one that is misplaced.
* `expressionWithin_settles`: the same for a chain.
-/

namespace Fern.Parsing

/-! ### Chains of literals and names -/

/-- A token that is an operand by itself: a literal or a name. -/
def IsAtom (token : Token) : Prop :=
  token.kind ∈ [.integer, .float, .string, .char, .trueWord, .falseWord, .ident]

instance (token : Token) : Decidable (IsAtom token) :=
  inferInstanceAs (Decidable (token.kind ∈ _))

/-- An operator of the language and an operand of one token. -/
def IsPlainLink (link : Token × Token) : Prop :=
  (Tables.standard.operator link.1.kind).isSome ∧ IsAtom link.2

instance (link : Token × Token) : Decidable (IsPlainLink link) :=
  inferInstanceAs (Decidable (_ ∧ _))

/-- A token that ends a statement. -/
def EndsStatement (token : Token) : Prop := token.kind = .semicolon ∨ token.kind = .rightBrace

/-- An operator that assigns what is on its right to what is on its left. -/
def Assigns (operator : Token) : Prop := operator.kind = .equal ∨ operator.kind = .colonEqual

instance (operator : Token) : Decidable (Assigns operator) :=
  inferInstanceAs (Decidable (_ ∨ _))

/-- The link at an index assigns to what is no name: it is not the first one, or what stands before
it is not `named`. -/
def Misplaced (named : Bool) (links : List (Token × Token)) (i : ℕ) : Prop :=
  ∃ link ∈ links[i]?, Assigns link.1 ∧ (i = 0 → named = false)

/-- The operator of the first link that is misplaced. -/
def misplaced? : Bool → List (Token × Token) → Option Token
  | _, [] => none
  | named, (operator, _) :: links =>
    if Assigns operator ∧ named = false then some operator else misplaced? false links

variable {named : Bool} {links later : List (Token × Token)} {link : Token × Token}
  {operator : Token}

lemma misplaced_zero : Misplaced named (link :: links) 0 ↔ Assigns link.1 ∧ named = false := by
  simp [Misplaced]

lemma misplaced_succ {i : ℕ} :
    Misplaced named (link :: links) (i + 1) ↔ Misplaced false links i := by
  simp [Misplaced]

lemma misplaced?_eq_none : misplaced? named links = none ↔ ∀ i, ¬ Misplaced named links i := by
  induction links generalizing named with
  | nil => simp [misplaced?, Misplaced]
  | cons link links ih =>
      rw [← Nat.and_forall_add_one, misplaced_zero]
      simp only [misplaced_succ, ← ih, misplaced?]
      split <;> simp_all

/-- The first misplaced link and its index. -/
lemma misplaced?_eq_some : misplaced? named links = some operator ↔
    ∃ i, (links[i]?.map Prod.fst = some operator ∧ Misplaced named links i) ∧
      ∀ j < i, ¬ Misplaced named links j := by
  induction links generalizing named with
  | nil => simp [misplaced?]
  | cons link links ih =>
      by_cases hfirst : Assigns link.1 ∧ named = false
      · rw [misplaced?, if_pos hfirst, Option.some.injEq]
        constructor
        · rintro rfl
          exact ⟨0, ⟨rfl, misplaced_zero.mpr hfirst⟩, fun j hj => by omega⟩
        · rintro ⟨i, ⟨hi, -⟩, hleast⟩
          obtain rfl : i = 0 := by
            by_contra hne
            exact hleast 0 (by omega) (misplaced_zero.mpr hfirst)
          simpa using hi
      · rw [misplaced?, if_neg hfirst, ih]
        constructor
        · rintro ⟨i, ⟨hi, hmisplaced⟩, hleast⟩
          refine ⟨i + 1, ⟨hi, misplaced_succ.mpr hmisplaced⟩, fun j hj => ?_⟩
          cases j with
          | zero => exact fun h => hfirst (misplaced_zero.mp h)
          | succ j => exact fun h => hleast j (by omega) (misplaced_succ.mp h)
        · rintro ⟨i, ⟨hi, hmisplaced⟩, hleast⟩
          cases i with
          | zero => exact absurd (misplaced_zero.mp hmisplaced) hfirst
          | succ i =>
              refine ⟨i, ⟨hi, misplaced_succ.mp hmisplaced⟩, fun j hj h => ?_⟩
              exact hleast (j + 1) (by omega) (misplaced_succ.mpr h)

/-- Links that assign nothing do not matter after a first one. -/
lemma misplaced?_append (h : ∀ link ∈ links, ¬ Assigns link.1) :
    misplaced? false (links ++ later) = misplaced? false later := by
  induction links with
  | nil => rfl
  | cons link links ih =>
      obtain ⟨hfirst, hothers⟩ := List.forall_mem_cons.mp h
      rw [List.cons_append, misplaced?, if_neg fun h => hfirst h.1, ih hothers]

/-! ### Operands -/

variable {s : State} {token ending : Token} {ts rest : List Token}

/-- After an operand of a chain there is an operator or the end of the statement, so that the
operand is not called or indexed. -/
lemma kind_after (hlinks : ∀ link ∈ links, IsPlainLink link) (hending : EndsStatement ending)
    (hs : s.rest = linkWords links ++ ending :: rest) :
    s.kind ≠ .leftParen ∧ s.kind ≠ .leftBracket := by
  cases links with
  | nil =>
      rw [State.kind_of_rest hs]
      rcases hending with h | h <;> rw [h] <;> decide
  | cons link links =>
      have hoperator := (hlinks link (List.mem_cons_self ..)).1
      rw [State.kind_of_rest hs]
      constructor <;> intro hkind <;> rw [hkind] at hoperator <;> cases hoperator

/-- An operand is read in one step, as a name if the token is one. -/
lemma IsAtom.operandWithin_eq (h : IsAtom token) (hs : s.rest = token :: ts)
    (hnext : (s.moved ts).kind ≠ .leftParen ∧ (s.moved ts).kind ≠ .leftBracket) (n : ℕ) :
    ∃ t s', operandWithin .standard (n + 2) s = .ok t s' ∧ s'.rest = ts ∧
      t.name?.isSome = decide (token.kind = .ident) := by
  have hliteral : ∀ shape, IsLiteral .standard token shape →
      ((s.moved ts).built shape token.location).name? = none → token.kind ≠ .ident →
      ∃ t s', operandWithin .standard (n + 2) s = .ok t s' ∧ s'.rest = ts ∧
        t.name?.isSome = decide (token.kind = .ident) := fun shape hshape hname hkind =>
    ⟨_, _, hshape.operandWithin_eq hs n, rfl, by simp [hname, hkind]⟩
  simp only [IsAtom, List.mem_cons, List.not_mem_nil, or_false] at h
  rcases h with h | h | h | h | h | h | h
  case inl | inr.inl => exact hliteral _ (.number (by rw [h]; rfl)) rfl (by rw [h]; decide)
  · exact hliteral _ (.string (by rw [h]; rfl) h) rfl (by rw [h]; decide)
  · exact hliteral _ (.char (by rw [h]; rfl) h) rfl (by rw [h]; decide)
  iterate 2 exact hliteral _ (.boolean (by rw [h]; rfl)) rfl (by rw [h]; decide)
  · have hrule : Tables.standard.primary s.kind = some .identifier := by
      rw [State.kind_of_rest hs, h]
      rfl
    exact ⟨_, _, operandWithin_eq_ok.mpr ⟨_, hrule, (var_eq_ok hs h hnext.1 hnext.2).mpr
      (add_run _ _ _)⟩, rfl, by rw [h]; rfl⟩

/-! ### Runs over operators -/

section Climb

variable {n : ℕ} {least : ℤ} {left first right : Tree} {s₁ s₂ : State} {power : Power}
  {rule : OperatorRule} {operand : Token}

/-- An operator whose operands are read joins them, and the operators after them follow. -/
lemma climbWithin_operator (hs : s.rest = operator :: ts)
    (hrule : Tables.standard.operator operator.kind = some (power, rule))
    (hle : least ≤ power.level)
    (hfirst : operandWithin .standard n (s.moved ts) = .ok first s₁)
    (hright : (if power.level < level s₁.kind then
      climbWithin .standard n (power.level + 1) first else pure first) s₁ = .ok right s₂) :
    climbWithin .standard (n + 1) least left s
      = (join rule left operator right >>= climbWithin .standard n least) s₂ := by
  have hlt : ¬ power.level < least := by omega
  rw [climbWithin, kind_bind, State.kind_of_rest hs]
  simp only [hrule, hlt, if_false, advance_bind, hs, List.head?_cons, List.tail_cons]
  rw [bind_of_ok hfirst, kind_bind]
  exact bind_of_ok hright

/-- What is no name is refused as the left operand of an assignment. -/
lemma join_no_name (h : left.name? = none) : join .assignment left operator right s
    = .error (.finding (.error .invalidAssignmentTarget operator.location)) s := by
  simp only [join, h]
  rfl

/-- The result of a run before the links `links` that reads some of them, which assign nothing, up
to an operator below `least`. -/
def Passes (tail : List Token) (least : ℤ) (links : List (Token × Token))
    (r : EStateM.Result Failure State Tree) : Prop :=
  ∃ t s' passed later, r = .ok t s' ∧ s'.rest = linkWords later ++ tail ∧ level s'.kind < least ∧
    links = passed ++ later ∧ ∀ link ∈ passed, ¬ Assigns link.1

/-- With `n` steps, a run over the operators from `least` upwards reads links that assign nothing.
-/
def PassesWithin (n : ℕ) (least : ℤ) (tail : List Token) : Prop :=
  ∀ ⦃links left s⦄, links.length + 2 ≤ n → (∀ link ∈ links, IsPlainLink link) →
    s.rest = linkWords links ++ tail →
      Passes tail least links (climbWithin .standard n least left s)

/-- The operands of an operator are read: a token on its right, and what stronger operators join to
it, which assign nothing. -/
lemma PassesWithin.operands (h : PassesWithin n (power.level + 1) (ending :: rest))
    (hending : EndsStatement ending)
    (hlinks : ∀ link ∈ (operator, operand) :: links, IsPlainLink link) (hn : links.length + 2 ≤ n)
    (hs : s.rest = linkWords ((operator, operand) :: links) ++ ending :: rest)
    (hrule : Tables.standard.operator operator.kind = some (power, rule))
    (hle : least ≤ power.level) (left : Tree) :
    ∃ right s₂ passed later, climbWithin .standard (n + 1) least left s
        = (join rule left operator right >>= climbWithin .standard n least) s₂ ∧
      s₂.rest = linkWords later ++ ending :: rest ∧ links = passed ++ later ∧
      ∀ link ∈ passed, ¬ Assigns link.1 := by
  obtain ⟨⟨-, hatom⟩, hlinks⟩ := List.forall_mem_cons.mp hlinks
  obtain ⟨m, rfl⟩ : ∃ m, n = m + 2 := ⟨n - 2, by omega⟩
  obtain ⟨first, s₁, hfirst, hs₁, -⟩ := hatom.operandWithin_eq
    (s := s.moved (operand :: (linkWords links ++ ending :: rest))) rfl
    (kind_after (s := s.moved _) hlinks hending rfl) m
  have hright : Passes (ending :: rest) (power.level + 1) links
      ((if power.level < level s₁.kind then
        climbWithin .standard (m + 2) (power.level + 1) first else pure first) s₁) := by
    split
    · exact h hn hlinks hs₁
    · exact ⟨first, s₁, [], links, rfl, hs₁, by omega, rfl, by simp⟩
  obtain ⟨right, s₂, passed, later, hright, hs₂, -, rfl, hpassed⟩ := hright
  exact ⟨right, s₂, passed, later, climbWithin_operator hs hrule hle hfirst hright, hs₂, rfl,
    hpassed⟩

/-- What ends a statement is no operator. -/
lemma level_of_endsStatement (hending : EndsStatement ending) : level ending.kind < 0 := by
  rcases hending with h | h <;> rw [h] <;> decide

/-- The assignments are the operators of the lowest level. -/
lemma assigns_iff (h : Tables.standard.operator operator.kind = some (power, rule)) :
    (rule = .assignment ∧ power.level = 1 ∧ Assigns operator) ∨
      rule = .binary ∧ 1 < power.level ∧ ¬ Assigns operator := by
  rcases operator_cases h with ⟨hrule, hlevel, hkind⟩ | ⟨hrule, layer, hlayer, hmem, hlevel⟩
  · exact .inl ⟨hrule, hlevel, hkind⟩
  · refine .inr ⟨hrule, by omega, ?_⟩
    rintro (hkind | hkind) <;> rw [hkind] at h <;> cases h <;> cases hrule

lemma Passes.append {passed : List (Token × Token)} {ts : List Token}
    {r : EStateM.Result Failure State Tree} (h : Passes ts least later r)
    (hpassed : ∀ link ∈ passed, ¬ Assigns link.1) : Passes ts least (passed ++ later) r := by
  obtain ⟨t, s', more, later, hr, hs', hlevel, rfl, hmore⟩ := h
  exact ⟨t, s', passed ++ more, later, hr, hs', hlevel, (List.append_assoc _ _ _).symm,
    List.forall_mem_append.mpr ⟨hpassed, hmore⟩⟩

/-- **Operators above the assignments.** Every operator from a level above that of the assignments
upwards is read with its right operand, and no assignment is among them. The induction is on the
steps allowed, each operator taking one. -/
lemma climbWithin_passes (hending : EndsStatement ending) (hleast : 1 < least) :
    PassesWithin n least (ending :: rest) := by
  induction n generalizing least with
  | zero => exact fun hn => by omega
  | succ n ih =>
      intro links left s hn hlinks hs
      by_cases hweak : level s.kind < least
      · exact ⟨left, s, [], links, climbWithin_stop hweak, hs, hweak, rfl, by simp⟩
      cases links with
      | nil =>
          have hlevel := level_of_endsStatement hending
          rw [State.kind_of_rest hs] at hweak
          omega
      | cons link links =>
          obtain ⟨operator, operand⟩ := link
          obtain ⟨⟨power, rule⟩, hrule⟩ :=
            Option.isSome_iff_exists.mp (hlinks _ (List.mem_cons_self ..)).1
          have hle : least ≤ power.level := by
            rw [← level_of_operator hrule, ← State.kind_of_rest hs]
            exact not_lt.mp hweak
          obtain ⟨-, hlevel, -⟩ | ⟨rfl, -, hassigns⟩ := assigns_iff hrule
          · omega
          rw [List.length_cons] at hn
          obtain ⟨right, s₂, passed, later, hrun, hs₂, rfl, hpassed⟩ :=
            (ih (by omega)).operands hending hlinks (by omega) hs hrule hle left
          rw [List.length_append] at hn
          rw [hrun, bind_of_ok (join_binary.trans (add_run _ _ _))]
          have hothers : ∀ link ∈ later, IsPlainLink link := fun link h => hlinks link (by simp [h])
          have hall : ∀ link ∈ (operator, operand) :: passed, ¬ Assigns link.1 :=
            List.forall_mem_cons.mpr ⟨hassigns, hpassed⟩
          exact (ih hleast (by omega) hothers ((State.rest_added s₂ _ _).trans hs₂)).append hall

/-- The result of a run that reads all tokens up to `tail`, or refuses the misplaced operator if
there is one. -/
def Settles (tail : List Token) (misplaced : Option Token) :
    EStateM.Result Failure State Tree → Prop
  | .ok _ s => misplaced = none ∧ s.rest = tail
  | .error e _ => ∃ operator, misplaced = some operator ∧
      e = .finding (.error .invalidAssignmentTarget operator.location)

/-- **All operators.** They are read up to the first one that is misplaced. -/
lemma climbWithin_settles (hending : EndsStatement ending) (hn : links.length + 2 ≤ n)
    (hlinks : ∀ link ∈ links, IsPlainLink link) (hs : s.rest = linkWords links ++ ending :: rest) :
    Settles (ending :: rest) (misplaced? left.name?.isSome links)
      (climbWithin .standard n 0 left s) := by
  induction n generalizing links left s with
  | zero => omega
  | succ n ih =>
      cases links with
      | nil =>
          have hstop : level s.kind < 0 := by
            rw [State.kind_of_rest hs]
            exact level_of_endsStatement hending
          rw [climbWithin_stop hstop]
          exact ⟨rfl, hs⟩
      | cons link links =>
          obtain ⟨operator, operand⟩ := link
          obtain ⟨⟨power, rule⟩, hrule⟩ :=
            Option.isSome_iff_exists.mp (hlinks _ (List.mem_cons_self ..)).1
          have hkind := assigns_iff hrule
          rw [List.length_cons] at hn
          have hpasses : PassesWithin n (power.level + 1) (ending :: rest) :=
            climbWithin_passes hending (by omega)
          obtain ⟨right, s₂, passed, later, hrun, hs₂, rfl, hpassed⟩ :=
            hpasses.operands hending hlinks (by omega) hs hrule (show 0 ≤ power.level by omega) left
          rw [List.length_append] at hn
          -- what the operator makes of its operands is no name
          have hnext : ∀ joined s₃, s₃.rest = linkWords later ++ ending :: rest →
              joined.name? = none → Settles (ending :: rest) (misplaced? false (passed ++ later))
                (climbWithin .standard n 0 joined s₃) := by
            intro joined s₃ hs₃ hname
            have hothers : Settles _ (misplaced? joined.name?.isSome later) _ :=
              ih (by omega) (fun link h => hlinks link (by simp [h])) hs₃
            rwa [hname, Option.isSome_none, ← misplaced?_append hpassed] at hothers
          rw [hrun, misplaced?]
          obtain ⟨rfl, -, hassigns⟩ | ⟨rfl, -, hassigns⟩ := hkind
          · cases hname : left.name? with
            | none =>
                rw [if_pos ⟨hassigns, rfl⟩]
                rw [bind_of_error (join_no_name hname)]
                exact ⟨operator, rfl, rfl⟩
            | some name =>
                rw [if_neg (by simp)]
                rcases hassigns with h | h
                · rw [bind_of_ok (join_equal hname h)]
                  exact hnext _ _ hs₂ rfl
                · rw [bind_of_ok (join_colonEqual hname h)]
                  exact hnext _ _ hs₂ rfl
          · rw [if_neg fun h => hassigns h.1, bind_of_ok (join_binary.trans (add_run _ _ _))]
            exact hnext _ _ hs₂ rfl

end Climb

/-- **Chains.** A chain is read up to the end of the statement, or its first misplaced operator is
refused. -/
lemma expressionWithin_settles {n : ℕ} {first : Token} (hfirst : IsAtom first)
    (hlinks : ∀ link ∈ links, IsPlainLink link) (hending : EndsStatement ending)
    (hn : links.length + 3 ≤ n) (hs : s.rest = chain first links ++ ending :: rest) :
    Settles (ending :: rest) (misplaced? (first.kind = .ident) links)
      (expressionWithin .standard n s) := by
  obtain ⟨n, rfl⟩ : ∃ m, n = m + 3 := ⟨n - 3, by omega⟩
  obtain ⟨left, s₁, hleft, hs₁, hname⟩ := hfirst.operandWithin_eq hs
    (kind_after (s := s.moved _) hlinks hending rfl) n
  rw [expressionWithin, bind_of_ok hleft, ← hname]
  exact climbWithin_settles hending (by omega) hlinks hs₁

end Fern.Parsing
