import Mathlib.Tactic
import Fern.Proofs.Parsing.Completeness
import Fern.Proofs.Parsing.Soundness

/-!
The language of the parser is that of the grammar.

* `Represents`: a parsed item is a construct of the grammar, its body a stored tree.
* `items_sound`, `items_complete`: what is read as a program is one, and every program is read.
* `stored_of_parse`: the bodies of a program are stored, and no two of them share an expression.
* `parse_accepts_iff_isProgram`: **the language of the parser**.
-/

namespace Fern.Parsing

variable {n : ℕ} {s s' s₁ : State} {ts ts' : List Token} {p : Prototype}
  {good : Tree → Prop}

/-! ### Items -/

lemma function_eq_ok {f : Function} :
    function .standard s = .ok f s' ↔ ∃ p s₁ body, prototype s = .ok p s₁ ∧
      block .standard s₁ = .ok body s' ∧ f = ⟨p, body.id⟩ := by
  simp only [function, bind_eq_ok, pure_eq_ok]
  constructor
  · rintro ⟨p, s₁, hp, body, _, hbody, rfl, rfl⟩
    exact ⟨p, s₁, body, hp, hbody, rfl⟩
  · rintro ⟨p, s₁, body, hp, hbody, rfl⟩
    exact ⟨p, s₁, hp, body, _, hbody, rfl, rfl⟩

lemma declaration_eq_ok :
    declaration s = .ok p s' ↔ ∃ word ts s₁ semicolon ts₁, s.rest = word :: ts ∧
      word.kind = .externWord ∧ prototype (s.moved ts) = .ok p s₁ ∧ s₁.rest = semicolon :: ts₁ ∧
      semicolon.kind = .semicolon ∧ s' = s₁.moved ts₁ := by
  simp only [declaration, expect_bind_eq_ok, bind_eq_ok (x := prototype), pure_eq_ok]
  constructor
  · rintro ⟨word, ts, hs, hword, _, s₁, hp, semicolon, ts₁, hrest, hsemicolon, rfl, rfl⟩
    exact ⟨word, ts, s₁, semicolon, ts₁, hs, hword, hp, hrest, hsemicolon, rfl⟩
  · rintro ⟨word, ts, s₁, semicolon, ts₁, hs, hword, hp, hrest, hsemicolon, rfl⟩
    exact ⟨word, ts, hs, hword, _, s₁, hp, semicolon, ts₁, hrest, hsemicolon, rfl, rfl⟩

lemma item_eq_ok {i : Item} :
    item .standard s = .ok i s' ↔
      (s.kind = .funcWord ∧ ∃ f, function .standard s = .ok f s' ∧ i = .function f) ∨
        s.kind = .externWord ∧ ∃ p, declaration s = .ok p s' ∧ i = .declaration p := by
  simp only [item, kind_bind]
  generalize s.kind = k
  split
  · simp [map_eq_ok]
  · simp [map_eq_ok]
  · next hfunc hextern =>
      replace hfunc : k ≠ .funcWord := hfunc
      replace hextern : k ≠ .externWord := hextern
      simp [hfunc, hextern, lexeme_bind, location_bind, fail_ne_ok]

lemma itemsWithin_eq_ok {is : List Item} :
    itemsWithin .standard (n + 1) s = .ok is s' ↔
      (s.rest = [] ∧ is = [] ∧ s' = s) ∨ s.rest ≠ [] ∧ ∃ i s₁ others,
        item .standard s = .ok i s₁ ∧ itemsWithin .standard n s₁ = .ok others s' ∧
          is = i :: others := by
  by_cases h : s.rest = []
  · simp [itemsWithin, get_bind, h, pure_eq_ok]
  · simp [itemsWithin, get_bind, h, bind_eq_ok, map_eq_ok]

/-- A parsed item is a construct of the grammar, its body stored in `a`. -/
inductive Represents (a : Arena) : Item → Construct → Prop
  | function {p : Prototype} {body : Tree} (stored : a.Stores body) :
      Represents a (.function ⟨p, body.id⟩) (.function p body)
  | declaration {p : Prototype} : Represents a (.declaration p) (.declaration p)

lemma Represents.mono {a b : Arena} {i : Item} {c : Construct} (h : Represents a i c)
    (hab : a.Extends b) : Represents b i c := by
  cases h with
  | function stored => exact .function (stored.mono hab)
  | declaration => exact .declaration

/-! ### Soundness -/

/-- The bodies of the functions among some constructs. -/
def bodies (cs : List Construct) : List Tree := (cs.filterMap Construct.function?).map Prod.snd

/-- What is read as items are functions and declarations up to the end of the tokens, and the bodies
of the functions are stored one after the other. -/
lemma items_sound {is : List Item} (h : itemsWithin .standard n s = .ok is s') :
    ∃ cs, IsProgram s.rest cs ∧ s.arena.Extends s'.arena ∧
      List.Forall₂ (Represents s'.arena) is cs ∧
      Tree.Laid s.arena.size (bodies cs) s'.arena.size := by
  induction n generalizing s is with
  | zero => exact absurd h throw_ne_ok
  | succ n ih =>
      rcases itemsWithin_eq_ok.mp h with ⟨hs, rfl, rfl⟩ | ⟨-, i, s₁, others, hi, hothers, rfl⟩
      · exact ⟨[], hs ▸ .empty, .refl _, .nil, .nil le_rfl⟩
      · obtain ⟨cs, hprogram, hextends, hrepresents, hlaid⟩ := ih hothers
        rcases item_eq_ok.mp hi with ⟨-, f, hf, rfl⟩ | ⟨-, p, hp, rfl⟩
        · obtain ⟨p, s₂, body, hp, hbody, rfl⟩ := function_eq_ok.mp hf
          obtain ⟨ts', hprototype, rfl⟩ := prototype_sound hp
          obtain ⟨hblock, hdelivers⟩ := (soundAt _).block hbody
          have hstored := (hdelivers.stored body (by simp)).mono hextends
          exact ⟨.function p body :: cs, .function hprototype hblock hprogram,
            hdelivers.extends_arena.trans hextends, .cons (.function hstored) hrepresents,
            hdelivers.laid.append hlaid⟩
        · obtain ⟨word, ts, s₂, semicolon, ts₁, hs, hword, hhead, hrest, hsemicolon, rfl⟩ :=
            declaration_eq_ok.mp hp
          obtain ⟨ts', hprototype, rfl⟩ := prototype_sound hhead
          rw [State.rest_moved] at hrest
          rw [State.rest_moved, hrest] at hprototype
          exact ⟨.declaration p :: cs, hs ▸ .declaration hword hprototype hsemicolon hprogram,
            hextends, .cons .declaration hrepresents, hlaid⟩

/-! ### Completeness -/

lemma AreParameters.length_lt {ps : List Parameter} (h : AreParameters ts ps ts') :
    ts'.length < ts.length := by
  induction h with
  | last _ _ htype =>
      have := htype.length_lt
      simp only [List.length_cons]
      omega
  | more _ _ htype _ _ ih =>
      have := htype.length_lt
      simp only [List.length_cons] at this ⊢
      omega

lemma IsPrototype.length_lt (h : IsPrototype ts p ts') : ts'.length < ts.length := by
  cases h with
  | @intro word name opening us parameters closing ts₁ ty _ _ _ _ hparameters _ hreturn =>
      have hlist : ts₁.length < us.length := by
        cases hparameters with
        | empty => simp
        | some h =>
            have := h.length_lt
            rw [List.length_cons] at this
            omega
      have hafter : ts'.length ≤ ts₁.length := by
        cases hreturn with
        | absent => exact le_rfl
        | stated _ htype =>
            have := htype.length_lt
            rw [List.length_cons]
            omega
      simp only [List.length_cons]
      omega

lemma headKind_of_isPrototype (h : IsPrototype ts p ts') : headKind ts = .funcWord := by
  cases h with
  | intro hword _ _ _ _ _ => exact hword

/-- There is a run on the tokens. -/
lemma Reads.exists_run {α : Type} {p : ℕ → Parse α} {extra : ℕ} {good : α → Prop}
    (h : Reads p extra good ts ts') :
    ∃ n s a s', s.rest = ts ∧ good a ∧ p n s = .ok a s' := by
  obtain ⟨a, s', -, ha, hrun⟩ := h ⟨ts, .start, .empty⟩ rfl
  exact ⟨_, ⟨ts, .start, .empty⟩, a, s', rfl, ha, hrun _ le_rfl⟩

/-- What is read as a block begins with a brace. -/
lemma ReadsBlock.headKind_eq (h : ReadsBlock good ts ts') : headKind ts = .leftBrace := by
  obtain ⟨n, s, t, s', rfl, -, hrun⟩ := h.run.exists_run
  exact headKind_of_isBlock ((soundAt n).block hrun).1

/-- A function is read as a head and a block, which is stored. -/
lemma item_function (hprototype : IsPrototype s.rest p ts)
    (hbody : ReadsBlock good ts ts') :
    ∃ t s₁, item .standard s = .ok (.function ⟨p, t.id⟩) s₁ ∧ s₁.rest = ts' ∧ good t ∧
      s₁.arena.Stores t := by
  have hlength := hprototype.length_lt
  have hnext : (s.moved ts).kind ≠ .arrow := by
    rw [State.kind_eq (State.rest_moved s ts), hbody.headKind_eq]
    decide
  have hp := prototype_complete hprototype rfl hnext
  obtain ⟨t, s₁, hs₁, hgood, hrun⟩ := hbody.run (s.moved ts) rfl
  have hblock : block .standard (s.moved ts) = .ok t s₁ :=
    hrun _ (by rw [State.rest_moved]; omega)
  have hkind : s.kind = .funcWord := by
    rw [State.kind_eq rfl, headKind_of_isPrototype hprototype]
  have hitem : item .standard s = .ok (.function ⟨p, t.id⟩) s₁ := item_eq_ok.mpr
    (.inl ⟨hkind, _, function_eq_ok.mpr ⟨p, _, t, hp, hblock, rfl⟩, rfl⟩)
  exact ⟨t, s₁, hitem, hs₁, hgood, ((soundAt _).block hblock).2.stored t (by simp)⟩

/-- A declaration is read as a head between its two marks, and nothing is stored. -/
lemma item_declaration {word semicolon : Token} (hs : s.rest = word :: ts)
    (hword : word.kind = .externWord) (hprototype : IsPrototype ts p (semicolon :: ts'))
    (hsemicolon : semicolon.kind = .semicolon) :
    item .standard s = .ok (.declaration p) (s.moved ts') := by
  have hnext : ((s.moved ts).moved (semicolon :: ts')).kind ≠ .arrow := by
    rw [State.kind_moved_cons, hsemicolon]
    decide
  have hp := prototype_complete (s := s.moved ts) hprototype rfl hnext
  have hdeclaration : declaration s = .ok p (s.moved ts') :=
    declaration_eq_ok.mpr ⟨word, ts, _, semicolon, ts', hs, hword, hp, rfl, hsemicolon, rfl⟩
  have hkind : s.kind = .externWord := by rw [State.kind_of_rest hs, hword]
  exact item_eq_ok.mpr (.inr ⟨hkind, p, hdeclaration, rfl⟩)

/-- Functions and declarations up to the end are read, in at most as many steps as there are tokens
and one more. -/
lemma items_complete {cs : List Construct} (h : IsProgram ts cs) (hs : s.rest = ts)
    (hn : ts.length < n) : ∃ is s', itemsWithin .standard n s = .ok is s' := by
  obtain ⟨n, rfl⟩ : ∃ m, n = m + 1 := Nat.exists_eq_succ_of_ne_zero (by omega)
  induction h generalizing s n with
  | empty => exact ⟨[], s, itemsWithin_eq_ok.mpr (.inl ⟨hs, rfl, rfl⟩)⟩
  | @function ts p ts₁ body ts' others hprototype hbody _ ih =>
      have hlength := hprototype.length_lt
      have hread := block_complete hbody
      have hshorter := hread.shorter
      obtain ⟨n, rfl⟩ : ∃ m, n = m + 1 := Nat.exists_eq_succ_of_ne_zero (by omega)
      obtain ⟨t, s₁, hitem, hs₁, -, -⟩ := item_function (hs ▸ hprototype) hread
      obtain ⟨is, s', his⟩ := ih hs₁ n (by omega)
      have hne : s.rest ≠ [] := by
        rw [hs]
        exact List.ne_nil_of_length_pos (by omega)
      exact ⟨_, s', itemsWithin_eq_ok.mpr (.inr ⟨hne, _, s₁, is, hitem, his, rfl⟩)⟩
  | @declaration word ts p semicolon ts' others hword hprototype hsemicolon _ ih =>
      have hlength := hprototype.length_lt
      simp only [List.length_cons] at hlength hn
      obtain ⟨n, rfl⟩ : ∃ m, n = m + 1 := Nat.exists_eq_succ_of_ne_zero (by omega)
      obtain ⟨is, s', his⟩ := ih (s := s.moved ts') rfl n (by omega)
      have hitem := item_declaration hs hword hprototype hsemicolon
      exact ⟨_, s', itemsWithin_eq_ok.mpr (.inr ⟨by simp [hs], _, _, is, hitem, his, rfl⟩)⟩

/-- With more steps than are needed the same items are read. -/
lemma itemsWithin_mono {is : List Item} {m : ℕ} (h : itemsWithin .standard m s = .ok is s')
    (hmn : m ≤ n) : itemsWithin .standard n s = .ok is s' := by
  induction m generalizing s is n with
  | zero => exact absurd h throw_ne_ok
  | succ m ih =>
      obtain ⟨n, rfl⟩ : ∃ k, n = k + 1 := Nat.exists_eq_succ_of_ne_zero (by omega)
      rcases itemsWithin_eq_ok.mp h with hempty | ⟨hne, i, s₁, others, hi, hothers, rfl⟩
      · exact itemsWithin_eq_ok.mpr (.inl hempty)
      · exact itemsWithin_eq_ok.mpr
          (.inr ⟨hne, i, s₁, others, hi, ih hothers (by omega), rfl⟩)

/-- Items are read in fewer steps too if these are more than there are tokens. -/
lemma itemsWithin_eq_of_lt {is : List Item} {m : ℕ} (h : itemsWithin .standard m s = .ok is s')
    (hn : s.rest.length < n) : itemsWithin .standard n s = .ok is s' := by
  obtain ⟨cs, hcs, -⟩ := items_sound h
  obtain ⟨is', s'', hrun⟩ := items_complete hcs rfl hn
  have hmore := itemsWithin_mono h (le_max_left m n)
  rw [itemsWithin_mono hrun (le_max_right m n)] at hmore
  cases hmore
  exact hrun

/-! ### Programs -/

/-- What represents some constructs stands for them in a program. -/
lemma program_of_represents {a : Arena} {is : List Item} {cs : List Construct}
    (h : List.Forall₂ (Represents a) is cs) :
    is.filterMap Item.declaration? = cs.filterMap Construct.declaration? ∧
      (is.filterMap Item.function?).map (fun f => (f.prototype, a.tree f.body))
        = cs.filterMap Construct.function? := by
  induction h with
  | nil => exact ⟨rfl, rfl⟩
  | cons hfirst _ ih =>
      obtain ⟨hdeclarations, hfunctions⟩ := ih
      cases hfirst with
      | function stored =>
          refine ⟨hdeclarations, ?_⟩
          simp only [List.filterMap_cons, Item.function?, Construct.function?, List.map_cons,
            stored.tree_eq, hfunctions]
      | declaration =>
          refine ⟨?_, hfunctions⟩
          simp only [List.filterMap_cons, Item.declaration?, Construct.declaration?, hdeclarations]

lemma program_eq_ok {q : Program} :
    program .standard s = .ok q s' ↔ ∃ is s₁,
      withinBudget (itemsWithin .standard) s = .ok is s₁ ∧ s' = { s₁ with arena := .empty } ∧
        q = ⟨s₁.arena, is.filterMap Item.declaration?, is.filterMap Item.function?⟩ := by
  have htake : ∀ (s : State) (f : Arena → Parse Program),
      (takeArena >>= f) s = f s.arena { s with arena := .empty } := fun _ _ => rfl
  simp only [program, bind_eq_ok (x := withinBudget _), htake, pure_eq_ok]
  constructor
  · rintro ⟨is, s₁, his, rfl, rfl⟩
    exact ⟨is, s₁, his, rfl, rfl⟩
  · rintro ⟨is, s₁, his, rfl, rfl⟩
    exact ⟨is, s₁, his, rfl, rfl⟩

lemma parse_eq_some {tokens : List Token} {log : Log} {q : Program} :
    (parse tokens log).1 = some q ↔ ∃ s', program .standard (.ofTokens tokens) = .ok q s' := by
  simp only [parse, EStateM.run]
  cases program .standard (.ofTokens tokens) with
  | ok q s' => simp
  | error e s' => cases e <;> simp

/-- Where the parser succeeds, nothing is recorded. -/
lemma parse_of_program_eq_ok {tokens : List Token} {log : Log} {q : Program}
    (h : program .standard (.ofTokens tokens) = .ok q s') : parse tokens log = (some q, log) := by
  simp only [parse, EStateM.run, h]

/-- The program that the tokens make has the declarations and the functions of a derivation. -/
lemma isProgram_of_parse {tokens : List Token} {log : Log} {q : Program}
    (h : (parse tokens log).1 = some q) :
    ∃ cs, IsProgram tokens cs ∧ q.declarations = cs.filterMap Construct.declaration? ∧
      q.functions.map (fun f => (f.prototype, q.body f)) = cs.filterMap Construct.function? := by
  obtain ⟨s', hprogram⟩ := parse_eq_some.mp h
  obtain ⟨is, s₁, his, -, rfl⟩ := program_eq_ok.mp hprogram
  obtain ⟨cs, hcs, -, hrepresents, -⟩ := items_sound his
  exact ⟨cs, hcs, program_of_represents hrepresents⟩

lemma stores_of_represents {a : Arena} {is : List Item} {cs : List Construct}
    (h : List.Forall₂ (Represents a) is cs) {f : Function} (hf : f ∈ is.filterMap Item.function?) :
    a.Stores (a.tree f.body) := by
  induction h with
  | nil => cases hf
  | cons hfirst _ ih =>
      cases hfirst with
      | function stored =>
          rcases List.mem_cons.mp hf with rfl | hf
          · exact stored.tree_eq.symm ▸ stored
          · exact ih hf
      | declaration => exact ih hf

/-- The bodies of the functions of a program are stored, one after the other. -/
lemma stored_of_parse {tokens : List Token} {log : Log} {q : Program}
    (h : (parse tokens log).1 = some q) :
    (∀ f ∈ q.functions, q.arena.Stores (q.body f)) ∧
      Tree.Laid 0 (q.functions.map q.body) q.arena.size := by
  obtain ⟨s', hprogram⟩ := parse_eq_some.mp h
  obtain ⟨is, s₁, his, -, rfl⟩ := program_eq_ok.mp hprogram
  obtain ⟨cs, -, -, hrepresents, hlaid⟩ := items_sound his
  have hbodies := congrArg (List.map Prod.snd) (program_of_represents hrepresents).2
  rw [List.map_map] at hbodies
  refine ⟨fun f hf => stores_of_represents hrepresents hf, ?_⟩
  rw [bodies, ← hbodies] at hlaid
  exact hlaid

lemma exists_parse {tokens : List Token} (log : Log) {cs : List Construct}
    (h : IsProgram tokens cs) : ∃ q, (parse tokens log).1 = some q := by
  have hbudget : tokens.length < 8 * (tokens.length + 1) := by omega
  obtain ⟨is, s', his⟩ := items_complete (s := .ofTokens tokens) h rfl hbudget
  exact ⟨_, parse_eq_some.mpr ⟨_, program_eq_ok.mpr ⟨is, s', his, rfl, rfl⟩⟩⟩

/-- **The language of the parser.** A list of tokens makes a program exactly if the grammar derives
it, and then the program has the declarations and the functions of a derivation, the bodies of the
functions being the trees of that derivation. -/
theorem parse_accepts_iff_isProgram (tokens : List Token) (log : Log) :
    ((parse tokens log).1.isSome ↔ ∃ cs, IsProgram tokens cs) ∧
      ∀ q, (parse tokens log).1 = some q → ∃ cs, IsProgram tokens cs ∧
        q.declarations = cs.filterMap Construct.declaration? ∧
        q.functions.map (fun f => (f.prototype, q.body f)) = cs.filterMap Construct.function? := by
  refine ⟨⟨fun h => ?_, ?_⟩, fun q h => isProgram_of_parse h⟩
  · obtain ⟨q, hq⟩ := Option.isSome_iff_exists.mp h
    obtain ⟨cs, hcs, -⟩ := isProgram_of_parse hq
    exact ⟨cs, hcs⟩
  · rintro ⟨cs, hcs⟩
    exact Option.isSome_iff_exists.mpr (exists_parse log hcs)

end Fern.Parsing
