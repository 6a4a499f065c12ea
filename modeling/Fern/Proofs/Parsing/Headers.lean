import Mathlib.Tactic
import Fern.Proofs.Parsing.Grammar
import Fern.Proofs.Parsing.Steps

/-!
The parser on types and on the heads of functions.

* `type_eq_ok`: the parser reads a type exactly where the grammar has one.
* `annotation_sound`, `annotation_complete`, `returnType_complete`: the same for a type that may be
  left out, the grammar's choice being settled by the next token.
* `prototype_sound`, `prototype_complete`: the same for the head of a function.
-/

namespace Fern.Parsing

variable {n : ℕ} {s s' : State} {ts ts' : List Token}

/-- Messages quote a token as the grammar does. -/
lemma State.lexeme_of_rest {token : Token} (h : s.rest = token :: ts) :
    s.lexeme = textOrKind token := by
  simp [State.lexeme, textOrKind, h]

/-! ### Types -/

/-- A type is told by the marks in front of the first other token, which names it. -/
lemma isType_iff {ty : Ty} :
    IsType ts ty ts' ↔ ∃ name base, ts.dropWhile isRef = name :: ts' ∧ name.kind = .ident ∧
      Ty.ofName? name.lexeme = some base ∧ ty = ⟨base, (ts.takeWhile isRef).length⟩ := by
  constructor
  · intro h
    induction h with
    | @named name ts base hname known =>
        have hmark : isRef name = false := by simp [isRef, hname]
        exact ⟨name, base, by simp [hmark], hname, known, by simp [hmark]⟩
    | @reference mark ts ty ts' hmark _ ih =>
        obtain ⟨name, base, hdrop, hname, known, rfl⟩ := ih
        have hmark : isRef mark = true := by simp [isRef, hmark]
        exact ⟨name, base, by simp [hmark, hdrop], hname, known, by simp [hmark, Ty.reference]⟩
  · rintro ⟨name, base, hdrop, hname, known, rfl⟩
    induction ts with
    | nil => simp at hdrop
    | cons t ts ih =>
        by_cases ht : t.kind = .ref
        · have hmark : isRef t = true := by simp [isRef, ht]
          rw [List.takeWhile_cons_of_pos hmark]
          rw [List.dropWhile_cons_of_pos hmark] at hdrop
          exact .reference ht (ih hdrop)
        · have hmark : ¬ isRef t = true := by simp [isRef, ht]
          rw [List.dropWhile_cons_of_neg hmark] at hdrop
          rw [List.takeWhile_cons_of_neg hmark]
          obtain ⟨rfl, rfl⟩ := List.cons.inj hdrop
          exact .named hname known

/-- The parser reads a type exactly where the grammar has one. -/
lemma type_eq_ok {ty : Ty} :
    type s = .ok ty s' ↔ ∃ ts', IsType s.rest ty ts' ∧ s' = s.moved ts' := by
  have hreferences : ∀ f : ℕ → Parse Ty, (references >>= f) s
      = f (s.rest.takeWhile isRef).length (s.moved (s.rest.dropWhile isRef)) := fun _ => rfl
  rw [type, hreferences]
  simp only [expect_bind_eq_ok, State.rest_moved, State.moved_moved, isType_iff]
  constructor
  · rintro ⟨name, ts', hdrop, hname, h⟩
    cases known : Ty.ofName? name.lexeme with
    | none =>
        rw [known] at h
        exact absurd h fail_ne_ok
    | some base =>
        rw [known] at h
        obtain ⟨rfl, rfl⟩ := pure_eq_ok.mp h
        exact ⟨ts', ⟨name, base, hdrop, hname, known, rfl⟩, rfl⟩
  · rintro ⟨ts', ⟨name, base, hdrop, hname, known, rfl⟩, rfl⟩
    exact ⟨name, ts', hdrop, hname, by rw [known]; exact pure_eq_ok.mpr ⟨rfl, rfl⟩⟩

/-- A type that may be left out is read exactly if its mark is there. -/
lemma optionalType_eq_ok {k : Token.Kind} {stated : Option Ty} (hk : k ≠ .endOfInput) :
    optionally k type s = .ok stated s' ↔
      (∃ mark ts ty ts', s.rest = mark :: ts ∧ mark.kind = k ∧ IsType ts ty ts' ∧
        stated = some ty ∧ s' = s.moved ts') ∨ s.kind ≠ k ∧ stated = none ∧ s' = s := by
  rw [optionally_eq_ok]
  refine or_congr_left ?_
  simp only [type_eq_ok]
  constructor
  · rintro ⟨hkind, ty, ⟨ts', htype, rfl⟩, rfl⟩
    obtain ⟨mark, ts, hs, hmark⟩ := State.exists_of_kind hkind hk
    refine ⟨mark, ts, ty, ts', hs, hmark, ?_, rfl, rfl⟩
    simpa [hs] using htype
  · rintro ⟨mark, ts, ty, ts', hs, hmark, htype, rfl, rfl⟩
    refine ⟨(State.kind_of_rest hs).trans hmark, ty, ⟨ts', ?_, rfl⟩, rfl⟩
    simpa [hs] using htype

/-- What is read as the type of a binding is one, and nothing is stored. -/
lemma annotation_sound {stated : Option Ty} (h : optionally .colon type s = .ok stated s') :
    IsAnnotation s.rest stated s'.rest ∧ s'.arena = s.arena := by
  rcases (optionalType_eq_ok (by decide)).mp h with
    ⟨mark, ts, ty, ts', hs, hmark, htype, rfl, rfl⟩ | ⟨-, rfl, rfl⟩
  · exact ⟨hs ▸ .stated hmark htype, rfl⟩
  · exact ⟨.absent, rfl⟩

/-- Types get shorter as they are read. -/
lemma IsType.length_lt {ty : Ty} (h : IsType ts ty ts') : ts'.length < ts.length := by
  induction h with
  | named => simp
  | reference _ _ ih => rw [List.length_cons]; omega

lemma IsAnnotation.length_le {stated : Option Ty} (h : IsAnnotation ts stated ts') :
    ts'.length ≤ ts.length := by
  cases h with
  | absent => exact le_rfl
  | stated _ htype =>
      have := htype.length_lt
      rw [List.length_cons]
      omega

/-- The type of a binding is read if no colon follows where there is none. -/
lemma annotation_complete {stated : Option Ty} (h : IsAnnotation ts stated ts')
    (hnext : (s.moved ts').kind ≠ .colon) :
    optionally .colon type (s.moved ts) = .ok stated (s.moved ts') := by
  refine (optionalType_eq_ok (by decide)).mpr ?_
  cases h with
  | absent => exact .inr ⟨hnext, rfl, rfl⟩
  | @stated colon ts ty _ hcolon htype =>
      exact .inl ⟨colon, ts, ty, ts', rfl, hcolon, htype, rfl, rfl⟩

/-! ### Parameters -/

lemma parameter_eq_ok {p : Parameter} :
    parameter s = .ok p s' ↔ ∃ name colon ts ty ts', s.rest = name :: colon :: ts ∧
      name.kind = .ident ∧ colon.kind = .colon ∧ IsType ts ty ts' ∧
      p = ⟨name.lexeme, ty, name.location⟩ ∧ s' = s.moved ts' := by
  simp only [parameter, expect_bind_eq_ok, bind_eq_ok (x := type), type_eq_ok, pure_eq_ok,
    State.rest_moved, State.moved_moved]
  constructor
  · rintro ⟨name, _, hs, hname, colon, ts, rfl, hcolon, ty, _, ⟨ts', htype, rfl⟩, rfl, rfl⟩
    exact ⟨name, colon, ts, ty, ts', hs, hname, hcolon, htype, rfl, rfl⟩
  · rintro ⟨name, colon, ts, ty, ts', hs, hname, hcolon, htype, rfl, rfl⟩
    exact ⟨name, _, hs, hname, colon, ts, rfl, hcolon, ty, _, ⟨ts', htype, rfl⟩, rfl, rfl⟩

lemma parametersWithin_eq_ok {ps : List Parameter} :
    parametersWithin (n + 1) s = .ok ps s' ↔ ∃ p s₁, parameter s = .ok p s₁ ∧
      ((s₁.kind = .comma ∧ ∃ others,
          parametersWithin n (s₁.moved s₁.rest.tail) = .ok others s' ∧ ps = p :: others) ∨
        s₁.kind = .rightParen ∧ ps = [p] ∧ s' = s₁) := by
  simp only [parametersWithin, bind_eq_ok (x := parameter), kind_bind]
  refine exists_congr fun p => exists_congr fun s₁ => and_congr_right fun _ => ?_
  generalize s₁.kind = k
  split
  · simp only [skip_bind, bind_eq_ok, pure_eq_ok]
    simp [eq_comm]
  · simp [pure_eq_ok]
  · next hcomma hparen =>
      replace hcomma : k ≠ .comma := hcomma
      replace hparen : k ≠ .rightParen := hparen
      simp [hcomma, hparen, failUnexpected_ne_ok]

/-- What is read as parameters are parameters. -/
lemma parameters_sound {ps : List Parameter} (h : parametersWithin n s = .ok ps s') :
    ∃ ts', AreParameters s.rest ps ts' ∧ s' = s.moved ts' := by
  induction n generalizing s ps with
  | zero => exact absurd h throw_ne_ok
  | succ n ih =>
      obtain ⟨p, s₁, hp, hnext⟩ := parametersWithin_eq_ok.mp h
      obtain ⟨name, colon, ts, ty, ts₁, hs, hname, hcolon, htype, rfl, rfl⟩ := parameter_eq_ok.mp hp
      rw [hs]
      rcases hnext with ⟨hkind, others, hothers, rfl⟩ | ⟨hkind, rfl, rfl⟩
      · obtain ⟨comma, ts₂, hrest, hcomma⟩ := State.exists_of_kind hkind (by decide)
        rw [State.rest_moved] at hrest
        subst hrest
        obtain ⟨ts', hmore, rfl⟩ := ih hothers
        exact ⟨ts', .more hname hcolon htype hcomma hmore, rfl⟩
      · exact ⟨ts₁, .last hname hcolon htype, rfl⟩

/-- Parameters before a closing parenthesis are read, in at most as many steps as there are
tokens. -/
lemma parameters_complete {ps : List Parameter} {closing : Token} {ts us : List Token}
    (h : AreParameters ts ps us) (hus : us = closing :: ts') (hclosing : closing.kind = .rightParen)
    (hs : s.rest = ts) (hn : ts.length ≤ n) : parametersWithin n s = .ok ps (s.moved us) := by
  induction h generalizing s n with
  | @last name colon ts ty us hname hcolon htype =>
      obtain ⟨n, rfl⟩ : ∃ m, n = m + 1 := Nat.exists_eq_succ_of_ne_zero (by simp at hn; omega)
      refine parametersWithin_eq_ok.mpr ⟨_, s.moved us, ?_, .inr ⟨?_, rfl, rfl⟩⟩
      · exact parameter_eq_ok.mpr ⟨name, colon, ts, ty, us, hs, hname, hcolon, htype, rfl, rfl⟩
      · rw [hus, State.kind_moved_cons, hclosing]
  | @more name colon ts ty comma ts₁ others us hname hcolon htype hcomma _ ih =>
      obtain ⟨n, rfl⟩ : ∃ m, n = m + 1 := Nat.exists_eq_succ_of_ne_zero (by simp at hn; omega)
      have hlength := htype.length_lt
      simp only [List.length_cons] at hn hlength
      refine parametersWithin_eq_ok.mpr
        ⟨_, s.moved (comma :: ts₁), ?_, .inl ⟨hcomma, others, ?_, rfl⟩⟩
      · exact parameter_eq_ok.mpr ⟨name, colon, ts, ty, _, hs, hname, hcolon, htype, rfl, rfl⟩
      · exact ih hus rfl (by omega)

/-! ### Heads of functions -/

lemma prototype_eq_ok {p : Prototype} :
    prototype s = .ok p s' ↔ ∃ word name opening ts parameters s₁ closing ts₁ stated,
      s.rest = word :: name :: opening :: ts ∧ word.kind = .funcWord ∧ name.kind = .ident ∧
        opening.kind = .leftParen ∧
        listUnless .rightParen (withinBudget parametersWithin) (s.moved ts) = .ok parameters s₁ ∧
        s₁.rest = closing :: ts₁ ∧ closing.kind = .rightParen ∧
        optionally .arrow type (s₁.moved ts₁) = .ok stated s' ∧
        p = ⟨name.lexeme, parameters, stated.getD .void, name.location⟩ := by
  simp only [prototype, expect_bind_eq_ok, bind_eq_ok (x := listUnless _ _),
    bind_eq_ok (x := optionally _ _), pure_eq_ok, State.rest_moved, State.moved_moved]
  constructor
  · rintro ⟨word, _, hs, hword, name, _, rfl, hname, opening, ts, rfl, hopening, parameters, s₁,
      hparameters, closing, ts₁, hrest, hclosing, stated, _, hstated, rfl, rfl⟩
    exact ⟨word, name, opening, ts, parameters, s₁, closing, ts₁, stated, hs, hword, hname,
      hopening, hparameters, hrest, hclosing, hstated, rfl⟩
  · rintro ⟨word, name, opening, ts, parameters, s₁, closing, ts₁, stated, hs, hword, hname,
      hopening, hparameters, hrest, hclosing, hstated, rfl⟩
    exact ⟨word, _, hs, hword, name, _, rfl, hname, opening, ts, rfl, hopening, parameters, s₁,
      hparameters, closing, ts₁, hrest, hclosing, stated, _, hstated, rfl, rfl⟩

/-- What is read as the head of a function is one. -/
lemma prototype_sound {p : Prototype} (h : prototype s = .ok p s') :
    ∃ ts', IsPrototype s.rest p ts' ∧ s' = s.moved ts' := by
  obtain ⟨word, name, opening, ts, parameters, s₁, closing, ts₁, stated, hs, hword, hname,
    hopening, hparameters, hrest, hclosing, hstated, rfl⟩ := prototype_eq_ok.mp h
  have hlist : ∃ us, IsParameterList ts parameters us ∧ s₁ = s.moved us := by
    rcases listUnless_eq_ok.mp hparameters with ⟨-, rfl, rfl⟩ | ⟨-, hsome⟩
    · exact ⟨ts, .empty, rfl⟩
    · obtain ⟨us, hus, rfl⟩ := parameters_sound hsome
      exact ⟨us, .some hus, rfl⟩
  obtain ⟨us, hlist, rfl⟩ := hlist
  rw [State.rest_moved] at hrest
  subst hrest
  have hreturn : ∃ ts', IsReturnType ts₁ (stated.getD .void) ts' ∧ s' = s.moved ts' := by
    rcases (optionalType_eq_ok (by decide)).mp hstated with
      ⟨mark, ts₂, ty, ts', hmark, harrow, htype, rfl, rfl⟩ | ⟨-, rfl, rfl⟩
    · rw [State.rest_moved] at hmark
      subst hmark
      exact ⟨ts', .stated harrow htype, rfl⟩
    · exact ⟨ts₁, .absent, rfl⟩
  obtain ⟨ts', hreturn, rfl⟩ := hreturn
  exact ⟨ts', hs ▸ .intro hword hname hopening hlist hclosing hreturn, rfl⟩

/-- A list of parameters before a closing parenthesis is read. -/
lemma parameterList_complete {ps : List Parameter} {closing : Token}
    (h : IsParameterList ts ps (closing :: ts')) (hclosing : closing.kind = .rightParen) :
    listUnless .rightParen (withinBudget parametersWithin) (s.moved ts)
      = .ok ps (s.moved (closing :: ts')) := by
  refine listUnless_eq_ok.mpr ?_
  cases h with
  | empty => exact .inl ⟨by rw [State.kind_moved_cons, hclosing], rfl, rfl⟩
  | some h =>
      refine .inr ⟨?_, ?_⟩
      · cases h <;> simp [*]
      · exact parameters_complete h rfl hclosing rfl (by simp only [State.rest_moved]; omega)

/-- A return type is read if no arrow follows where there is none. -/
lemma returnType_complete {ty : Ty} (h : IsReturnType ts ty ts')
    (hnext : (s.moved ts').kind ≠ .arrow) :
    ∃ stated, optionally .arrow type (s.moved ts) = .ok stated (s.moved ts') ∧
      stated.getD .void = ty := by
  cases h with
  | absent => exact ⟨none, (optionalType_eq_ok (by decide)).mpr (.inr ⟨hnext, rfl, rfl⟩), rfl⟩
  | @stated arrow ts ty _ harrow htype =>
      refine ⟨some ty, (optionalType_eq_ok (by decide)).mpr (.inl ?_), rfl⟩
      exact ⟨arrow, ts, ty, ts', rfl, harrow, htype, rfl, rfl⟩

/-- The head of a function is read as such if no arrow follows it. -/
lemma prototype_complete {p : Prototype} (h : IsPrototype ts p ts') (hs : s.rest = ts)
    (hnext : (s.moved ts').kind ≠ .arrow) : prototype s = .ok p (s.moved ts') := by
  cases h with
  | @intro word name opening ts parameters closing ts₁ ty _ hword hname hopening hlist hclosing
      hreturn =>
      obtain ⟨stated, hstated, rfl⟩ := returnType_complete hreturn hnext
      exact prototype_eq_ok.mpr ⟨word, name, opening, ts, parameters, s.moved (closing :: ts₁),
        closing, ts₁, stated, hs, hword, hname, hopening, parameterList_complete hlist hclosing,
        rfl, hclosing, hstated, rfl⟩

end Fern.Parsing
