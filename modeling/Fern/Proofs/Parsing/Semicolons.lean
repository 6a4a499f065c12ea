import Mathlib.Tactic
import Fern.Proofs.Parsing.Language
import Fern.Proofs.Parsing.Locality

/-!
The semicolon after a statement that ends with a block.

* `blockWithin_semicolon_iff`: in a block of two statements, the first of which ends with a block,
  the semicolon between them may be left out exactly if the second does not begin with a minus sign.
* `parse_bareFunction`: the program of a function without parameters and return type.
* `semicolon_optional`: **the semicolon after a block**, in such a function.
-/

namespace Fern

namespace Parsing

variable {m n : ℕ} {s s' s₁ s₂ : State} {ts : List Token} {start semicolon : Token}
  {before after : List Token} {t first second : Tree} {es others : List Tree} {id : NodeId}
  {l : Location}

/-! ### Enough steps -/

/-- With more steps than are needed the same expression is read. -/
lemma expressionWithin_eq_of_le (h : IsExpression s.rest t ts) (hnext : headKind ts ∈ followingKinds)
    (hrun : expressionWithin .standard m s = .ok first s')
    (hm : 8 * s.rest.length + 3 ≤ m) (hn : 8 * s.rest.length + 3 ≤ n) :
    expressionWithin .standard n s = .ok first s' ∧ s'.rest = ts := by
  obtain ⟨u, s'', hrest, -, hreads⟩ := ((expression_complete h).reads (.stop hnext)).run s rfl
  have hsame := (hreads m hm).symm.trans hrun
  cases hsame
  exact ⟨hreads n hn, hrest⟩

/-- With more steps than are needed the same statements are read. -/
lemma statementsWithin_eq_of_le (hne : es ≠ []) (hnext : s'.kind = .rightBrace)
    (hrun : statementsWithin .standard m s = .ok es s')
    (hm : 8 * s.rest.length + 4 ≤ m) (hn : 8 * s.rest.length + 4 ≤ n) :
    statementsWithin .standard n s = .ok es s' ∧ Begins s.rest := by
  rcases (soundAt m).statements hrun with ⟨-, rfl, -⟩ | ⟨-, hstatements, -⟩
  · exact absurd rfl hne
  · rw [State.kind_eq rfl] at hnext
    obtain ⟨fs, s'', -, -, hreads⟩ := (statements_complete hstatements hnext).reads.run s rfl
    have hsame := (hreads m hm).symm.trans hrun
    cases hsame
    exact ⟨hreads n hn, begins_of_areStatements hstatements⟩

/-! ### In a block -/

/-- What can begin an expression is an operator exactly if it is a minus sign. -/
lemma Begins.level_neg_iff (h : Begins ts) : level (headKind ts) < 0 ↔ headKind ts ≠ .minus := by
  refine ⟨fun hlevel hminus => ?_, h.level_neg⟩
  rw [hminus] at hlevel
  exact absurd hlevel (by decide)

/-- Of two statements, the first of which ends with a block, the semicolon between may be left out
exactly if the second does not begin with a minus sign. -/
lemma statementsWithin_semicolon_iff (others : List Tree) (s₂ : State)
    (hbefore : IsExpression (before ++ semicolon :: after) t (semicolon :: after))
    (hsemicolon : semicolon.kind = .semicolon) (hblock : first.endsWithBlock)
    (hrun : statementsWithin .standard (m + 1) (s.moved (before ++ semicolon :: after))
      = .ok [first, second] s₁) (hend : s₁.kind = .rightBrace)
    (hm : 8 * (before ++ semicolon :: after).length + 3 ≤ m)
    (hn : 8 * (before ++ semicolon :: after).length + 3 ≤ n) :
    statementsWithin .standard (n + 1) (s.moved (before ++ after)) = .ok (first :: others) s₂ ↔
      headKind after ≠ .minus ∧ others = [second] ∧ s₂ = s₁ := by
  obtain ⟨-, h, -⟩ | ⟨hnonempty, statement, s₃, u, s₄, rest, hfirst, hstop, hsecond, heq⟩ :=
    statementsWithin_eq_ok.mp hrun
  · cases h
  obtain ⟨rfl, rfl⟩ := List.cons.inj heq
  have hfollowing : headKind (semicolon :: after) ∈ followingKinds := by
    rw [headKind, hsemicolon]
    decide
  -- the first statement ends before the semicolon, however many steps there are
  obtain ⟨hfirst', hrest⟩ := expressionWithin_eq_of_le hbefore hfollowing hfirst hm hn
  have hkind : s₃.kind = .semicolon := by rw [State.kind_of_rest hrest, hsemicolon]
  obtain rfl : s₄ = s₃.moved after := by
    rcases statementEnd_eq_ok.mp hstop with ⟨-, h⟩ | ⟨h, -⟩ | ⟨h, -⟩
    · rw [h, hrest, List.tail_cons]
    · rw [hkind] at h
      cases h
    · exact absurd hkind h
  have hlength : 8 * after.length + 4 ≤ 8 * (before ++ semicolon :: after).length + 3 := by
    simp only [List.length_append, List.length_cons]
    omega
  obtain ⟨hsecond', hbegins⟩ := statementsWithin_eq_of_le (by simp) hend hsecond
    (hlength.trans hm) (hlength.trans hn)
  rw [State.rest_moved] at hbegins
  obtain ⟨word, read, hread, hagain⟩ := expressionWithin_of_endsWithBlock hfirst' hblock
  rw [State.rest_moved, hrest, ← List.cons_append] at hread
  obtain rfl := List.append_cancel_right hread
  have hwithout := hagain after (hbegins.ne rfl)
  simp only [State.moved_moved, hbegins.level_neg_iff] at hwithout
  constructor
  · intro h
    obtain ⟨-, h, -⟩ | ⟨-, statement, s₅, u, s₆, rest, hexpression, hstop, hothers, heq⟩ :=
      statementsWithin_eq_ok.mp h
    · cases h
    obtain ⟨rfl, rfl⟩ := List.cons.inj heq
    obtain ⟨hminus, -, rfl⟩ := (hwithout _ _).mp ⟨hexpression, hblock⟩
    rcases statementEnd_eq_ok.mp hstop with ⟨h, -⟩ | ⟨h, -⟩ | ⟨-, -, -, rfl⟩
    · exact absurd h (hbegins.ne rfl)
    · exact absurd h (hbegins.ne rfl)
    · rw [hsecond'] at hothers
      cases hothers
      exact ⟨hminus, rfl, rfl⟩
  · rintro ⟨hminus, rfl, rfl⟩
    have hkind' : (s.moved (word :: (read ++ after))).kind ≠ .rightBrace := by
      simpa using hnonempty
    refine statementsWithin_eq_ok.mpr (.inr ⟨hkind', first, _, (), _, [second],
      ((hwithout _ _).mpr ⟨hminus, rfl, rfl⟩).1, ?_, hsecond', rfl⟩)
    exact statementEnd_eq_ok.mpr (.inr (.inr ⟨hbegins.ne rfl, hbegins.ne rfl, hblock, rfl⟩))

/-- A block of two statements stays the same without the semicolon between them if the first ends
with a block and the second does not begin with a minus sign, and only then. -/
lemma blockWithin_semicolon_iff
    (hbefore : IsExpression (before ++ semicolon :: after) t (semicolon :: after))
    (hsemicolon : semicolon.kind = .semicolon) (hblock : first.endsWithBlock)
    (hrun : blockWithin .standard (m + 2) (s.moved (start :: (before ++ semicolon :: after)))
      = .ok (.node id l (.block [first, second])) s')
    (hm : 8 * (before ++ semicolon :: after).length + 3 ≤ m)
    (hn : 8 * (before ++ semicolon :: after).length + 3 ≤ n) :
    blockWithin .standard (n + 2) (s.moved (start :: (before ++ after)))
        = .ok (.node id l (.block [first, second])) s₂ ↔ headKind after ≠ .minus ∧ s₂ = s' := by
  obtain ⟨opening, ts, es, s₁, closing, ts₁, hs, hopening, hnonempty, hstatements, hrest, hclosing,
    hadd⟩ := blockWithin_eq_ok.mp hrun
  obtain ⟨rfl, rfl⟩ := List.cons.inj hs
  obtain ⟨hbuilt, rfl⟩ := add_eq_ok.mp hadd
  cases hbuilt
  have hend : s₁.kind = .rightBrace := by rw [State.kind_of_rest hrest, hclosing]
  have hiff (others : List Tree) (s₂ : State) :=
    statementsWithin_semicolon_iff others s₂ hbefore hsemicolon hblock hstatements hend hm hn
  rw [blockWithin_eq_ok]
  constructor
  · rintro ⟨opening', ts, es, s₃, closing', ts₂, hs', -, -, hstatements', hrest', -, hadd'⟩
    obtain ⟨rfl, rfl⟩ := List.cons.inj hs'
    obtain ⟨hbuilt, rfl⟩ := add_eq_ok.mp hadd'
    obtain ⟨-, -, hshape⟩ := Tree.node.inj hbuilt
    obtain rfl := Shape.block.inj hshape
    obtain ⟨hminus, -, rfl⟩ := (hiff _ _).mp hstatements'
    obtain ⟨-, rfl⟩ := List.cons.inj (hrest.symm.trans hrest')
    exact ⟨hminus, rfl⟩
  · rintro ⟨hminus, rfl⟩
    have hstatements' := (hiff [second] s₁).mpr ⟨hminus, rfl, rfl⟩
    have hnonempty' : (s.moved (before ++ after)).kind ≠ .rightBrace := by
      rcases statementsWithin_eq_ok.mp hstatements' with ⟨-, h, -⟩ | ⟨h, -⟩
      · cases h
      · exact h
    exact ⟨start, before ++ after, _, s₁, closing, ts₁, rfl, hopening, hnonempty', hstatements',
      hrest, hclosing, add_run _ _ _⟩

/-! ### In a function -/

/-- The head of a function without parameters and return type, with the brace that opens the body.
-/
def IsBareHead (head : List Token) : Prop :=
  head.map Token.kind = [.funcWord, .ident, .leftParen, .rightParen, .leftBrace]

lemma IsBareHead.exists_eq {head : List Token} (h : IsBareHead head) :
    ∃ word name opening closing start, head = [word, name, opening, closing, start] := by
  simp only [IsBareHead, List.map_eq_cons_iff, List.map_eq_nil_iff] at h
  obtain ⟨word, _, rfl, -, name, _, rfl, -, opening, _, rfl, -, closing, _, rfl, -, start, _, rfl, -,
    rfl⟩ := h
  exact ⟨word, name, opening, closing, start, rfl⟩

/-- The program of a function with such a head, its body and the items after it. -/
def bareProgram (name : Token) (body : Tree) (is : List Item) (a : Arena) : Program where
  arena := a
  declarations := is.filterMap Item.declaration?
  functions := ⟨⟨name.lexeme, [], .void, name.location⟩, body.id⟩ :: is.filterMap Item.function?

/-- After such a head, a block is read and then items up to the end. -/
lemma parse_bareHead {word name opening closing start : Token} {log : Log} {p : Program}
    (hhead : IsBareHead [word, name, opening, closing, start]) :
    (parse (word :: name :: opening :: closing :: start :: ts) log).1 = some p ↔
      ∃ body s₁ is s', blockWithin .standard (8 * ts.length + 16)
          ((State.ofTokens (word :: name :: opening :: closing :: start :: ts)).moved (start :: ts))
            = .ok body s₁ ∧
        itemsWithin .standard (8 * ts.length + 47) s₁ = .ok is s' ∧
        p = bareProgram name body is s'.arena := by
  simp only [IsBareHead, List.map_cons, List.map_nil, List.cons.injEq, and_true] at hhead
  obtain ⟨hword, hname, hopening, hclosing, hstart⟩ := hhead
  generalize htokens : word :: name :: opening :: closing :: start :: ts = tokens
  have hs : (State.ofTokens tokens).rest = word :: name :: opening :: closing :: start :: ts :=
    htokens.symm
  have hprototype : prototype (State.ofTokens tokens)
      = .ok ⟨name.lexeme, [], .void, name.location⟩
          ((State.ofTokens tokens).moved (start :: ts)) :=
    prototype_complete (.intro hword hname hopening .empty hclosing .absent) hs (by simp [hstart])
  have hbudget : 8 * (tokens.length + 1) = 8 * ts.length + 47 + 1 := by
    simp only [← htokens, List.length_cons]
    omega
  have hblock : ∀ s : State, block .standard (s.moved (start :: ts))
      = blockWithin .standard (8 * ts.length + 16) (s.moved (start :: ts)) := fun s => by
    rw [block, withinBudget, State.rest_moved, List.length_cons,
      show 8 * (ts.length + 1 + 1) = 8 * ts.length + 16 by omega]
  have hrun : withinBudget (itemsWithin .standard) (State.ofTokens tokens)
      = itemsWithin .standard (8 * ts.length + 47 + 1) (State.ofTokens tokens) := by
    rw [← hbudget]
    rfl
  rw [parse_eq_some]
  simp only [program_eq_ok, hrun]
  constructor
  · rintro ⟨_, is, s', his, -, rfl⟩
    obtain ⟨h, -⟩ | ⟨-, i, s₁, others, hi, hothers, rfl⟩ := itemsWithin_eq_ok.mp his
    · rw [hs] at h
      cases h
    · obtain ⟨-, f, hf, rfl⟩ | ⟨h, -⟩ := item_eq_ok.mp hi
      · obtain ⟨q, s₂, body, hq, hbody, rfl⟩ := function_eq_ok.mp hf
        rw [hprototype] at hq
        cases hq
        exact ⟨body, s₁, others, s', hblock _ ▸ hbody, hothers, rfl⟩
      · rw [State.kind_of_rest hs, hword] at h
        cases h
  · rintro ⟨body, s₁, is, s', hbody, his, rfl⟩
    have hfunction : function .standard (State.ofTokens tokens)
        = .ok ⟨⟨name.lexeme, [], .void, name.location⟩, body.id⟩ s₁ :=
      function_eq_ok.mpr ⟨_, _, body, hprototype, (hblock _).trans hbody, rfl⟩
    have hitem : item .standard (State.ofTokens tokens)
        = .ok (.function ⟨⟨name.lexeme, [], .void, name.location⟩, body.id⟩) s₁ :=
      item_eq_ok.mpr (.inl ⟨by rw [State.kind_of_rest hs, hword], _, hfunction, rfl⟩)
    refine ⟨_, _, s', itemsWithin_eq_ok.mpr (.inr ⟨?_, _, s₁, is, hitem, his, rfl⟩), rfl, rfl⟩
    rw [hs]
    exact List.cons_ne_nil _ _

/-- The body of such a function is the block that has been read. -/
lemma body_bareProgram (name : Token) {body : Tree} {is : List Item}
    (hblock : blockWithin .standard m s = .ok body s₁)
    (hitems : itemsWithin .standard n s₁ = .ok is s') :
    (bareProgram name body is s'.arena).functions.map (bareProgram name body is s'.arena).body
      = body :: (is.filterMap Item.function?).map (bareProgram name body is s'.arena).body := by
  obtain ⟨cs, -, hextends, -⟩ := items_sound hitems
  have hstored := ((soundAt m).block hblock).2.stored body (by simp)
  rw [bareProgram, List.map_cons]
  congr 1
  exact (hstored.mono hextends).tree_eq

end Parsing

open Parsing

/-- **The semicolon after a block.** In a function the body of which has two statements, the first
ending with a block, the semicolon between them may be left out without changing the program
exactly if the second does not begin with a minus sign. -/
theorem semicolon_optional (head before after : List Token) (semicolon closing : Token)
    (hhead : IsBareHead head) (hsemicolon : semicolon.kind = .semicolon)
    (hclosing : closing.kind = .rightBrace) (log : Log) (p : Program)
    (hparse : (parse (head ++ (before ++ semicolon :: (after ++ [closing]))) log).1 = some p)
    (id : NodeId) (l : Location) (first second : Tree)
    (hbody : p.functions.map p.body = [.node id l (.block [first, second])])
    (hfirst : IsExpression (before ++ semicolon :: (after ++ [closing])) first
      (semicolon :: (after ++ [closing]))) (hblock : first.endsWithBlock) :
    parse (head ++ (before ++ (after ++ [closing]))) log = (some p, log) ↔
      headKind after ≠ .minus := by
  obtain ⟨word, name, opening, closing', start, rfl⟩ := hhead.exists_eq
  generalize hwith : before ++ semicolon :: (after ++ [closing]) = ts at hparse hfirst
  generalize hwithout : before ++ (after ++ [closing]) = us
  have hlength : ts.length = us.length + 1 := by
    simp only [← hwith, ← hwithout, List.length_append, List.length_cons]
    omega
  simp only [List.cons_append, List.nil_append] at hparse ⊢
  -- both lists end with the same token, so the two runs begin alike
  have hstart : (State.ofTokens (word :: name :: opening :: closing' :: start :: us)).moved
      (start :: us) = (State.ofTokens (word :: name :: opening :: closing' :: start :: ts)).moved
        (start :: us) := by
    simp [State.ofTokens, State.moved, ← hwith, ← hwithout, List.getLast?_cons,
      List.getLast?_append]
  obtain ⟨body, s₁, is, s', hrun, his, rfl⟩ := (parse_bareHead hhead).mp hparse
  rw [body_bareProgram name hrun his] at hbody
  obtain ⟨rfl, -⟩ := List.cons.inj hbody
  have hiff : ∀ s₂, blockWithin .standard (8 * us.length + 16)
      ((State.ofTokens (word :: name :: opening :: closing' :: start :: us)).moved (start :: us))
        = .ok (.node id l (.block [first, second])) s₂ ↔ headKind after ≠ .minus ∧ s₂ = s₁ := by
    intro s₂
    have hkind : headKind (after ++ [closing]) ≠ .minus ↔ headKind after ≠ .minus := by
      cases after with
      | nil => simp [headKind, hclosing]
      | cons t ts => rfl
    rw [hstart, ← hkind, ← hwithout]
    subst hwith hwithout
    exact blockWithin_semicolon_iff hfirst hsemicolon hblock hrun (by omega) (by omega)
  constructor
  · intro h
    obtain ⟨body, s₂, is', s'', hrun', his', heq⟩ :=
      (parse_bareHead hhead).mp (congrArg Prod.fst h)
    have hbody' := body_bareProgram name hrun' his'
    rw [← heq, body_bareProgram name hrun his] at hbody'
    obtain ⟨rfl, -⟩ := List.cons.inj hbody'
    exact ((hiff s₂).mp hrun').1
  · intro hminus
    have hshorter : s₁.rest.length < 8 * us.length + 47 := by
      obtain ⟨_, read, hread, -⟩ := blockWithin_of_append hrun
      have := congrArg List.length hread
      simp only [State.rest_moved, List.length_cons, List.length_append] at this
      omega
    have hprogram : (parse (word :: name :: opening :: closing' :: start :: us) log).1 = some _ :=
      (parse_bareHead hhead).mpr ⟨_, s₁, is, s', (hiff s₁).mpr ⟨hminus, rfl⟩,
        itemsWithin_eq_of_lt his hshorter, rfl⟩
    obtain ⟨_, hrun'⟩ := parse_eq_some.mp hprogram
    exact parse_of_program_eq_ok hrun'

/-- The head of the function in `func f() { { 1 }; !1 }`. -/
def oneBlockHead : List Token :=
  [⟨.funcWord, "func", ⟨0, 0⟩⟩, ⟨.ident, "f", ⟨0, 5⟩⟩, ⟨.leftParen, "(", ⟨0, 6⟩⟩,
    ⟨.rightParen, ")", ⟨0, 7⟩⟩, ⟨.leftBrace, "\x7b", ⟨0, 9⟩⟩]

/-- The first statement in `func f() { { 1 }; !1 }`. -/
def oneBlock : List Token :=
  [⟨.leftBrace, "\x7b", ⟨0, 11⟩⟩, ⟨.integer, "1", ⟨0, 13⟩⟩, ⟨.rightBrace, "\x7d", ⟨0, 15⟩⟩]

/-- A sign and the number one in the place of the second statement. -/
def signedOne (sign : Token.Kind) (text : String) : List Token :=
  [⟨sign, text, ⟨0, 18⟩⟩, ⟨.integer, "1", ⟨0, 19⟩⟩]

/-- The program of a function with such statements. -/
def signedProgram (sign : Token.Kind) : Program where
  arena := ⟨#[⟨.number "1" false, ⟨0, 13⟩⟩, ⟨.block [0], ⟨0, 11⟩⟩, ⟨.number "1" false, ⟨0, 19⟩⟩,
    ⟨.unary sign 2, ⟨0, 18⟩⟩, ⟨.block [1, 3], ⟨0, 9⟩⟩]⟩
  functions := [⟨⟨"f", [], .void, ⟨0, 5⟩⟩, 4⟩]

/-- The tree of `oneBlock`. -/
def oneBlockTree : Tree := .node 1 ⟨0, 11⟩ (.block [.node 0 ⟨0, 13⟩ (.number "1" false)])

/-- The tree of `signedOne`. -/
def signedOneTree (sign : Token.Kind) : Tree :=
  .node 3 ⟨0, 18⟩ (.unary sign (.node 2 ⟨0, 19⟩ (.number "1" false)))

lemma isExpression_oneBlock (ts : List Token) : IsExpression (oneBlock ++ ts) oneBlockTree ts :=
  .chain (.lower (.lower (.lower (.lower (.operand (.block (.braces rfl (.last (.chain
    (.lower (.lower (.lower (.lower (.operand (.number (.inl rfl)))))))))
    rfl)))))))

/-- `func f() { { 1 }; !1 }` may be written without the semicolon. -/
theorem semicolon_optional_bang :
    (parse (oneBlockHead ++ (oneBlock ++ ⟨.semicolon, ";", ⟨0, 16⟩⟩ ::
      (signedOne .bang "!" ++ [⟨.rightBrace, "\x7d", ⟨0, 21⟩⟩]))) {}).1 = some (signedProgram .bang) ∧
    oneBlockTree.endsWithBlock ∧ headKind (signedOne .bang "!") ≠ .minus ∧
    parse (oneBlockHead ++ (oneBlock ++
      (signedOne .bang "!" ++ [⟨.rightBrace, "\x7d", ⟨0, 21⟩⟩]))) {}
        = (some (signedProgram .bang), {}) := by
  have hparse : (parse (oneBlockHead ++ (oneBlock ++ ⟨.semicolon, ";", ⟨0, 16⟩⟩ ::
      (signedOne .bang "!" ++ [⟨.rightBrace, "\x7d", ⟨0, 21⟩⟩]))) {}).1
        = some (signedProgram .bang) := by
    decide +kernel
  have hminus : headKind (signedOne .bang "!") ≠ .minus := by decide
  refine ⟨hparse, rfl, hminus, ?_⟩
  exact (semicolon_optional oneBlockHead oneBlock (signedOne .bang "!") _ _ rfl rfl rfl {} _ hparse
    4 ⟨0, 9⟩ oneBlockTree (signedOneTree .bang) rfl (isExpression_oneBlock _) rfl).mpr hminus

/-- Before a minus sign the semicolon is needed: without it, `func f() { { 1 }; -1 }` has one
statement, a difference. -/
theorem semicolon_needed_before_minus :
    ¬ ∀ (head before after : List Token) (semicolon closing : Token) (log : Log) (p : Program)
      (id : NodeId) (l : Location) (first second : Tree),
      IsBareHead head → semicolon.kind = .semicolon → closing.kind = .rightBrace →
      (parse (head ++ (before ++ semicolon :: (after ++ [closing]))) log).1 = some p →
      p.functions.map p.body = [.node id l (.block [first, second])] →
      IsExpression (before ++ semicolon :: (after ++ [closing])) first
        (semicolon :: (after ++ [closing])) → first.endsWithBlock →
      parse (head ++ (before ++ (after ++ [closing]))) log = (some p, log) := by
  intro h
  have hparse : (parse (oneBlockHead ++ (oneBlock ++ ⟨.semicolon, ";", ⟨0, 16⟩⟩ ::
      (signedOne .minus "-" ++ [⟨.rightBrace, "\x7d", ⟨0, 21⟩⟩]))) {}).1
        = some (signedProgram .minus) := by
    decide +kernel
  have hsame := h oneBlockHead oneBlock (signedOne .minus "-") _ _ {} _ 4 ⟨0, 9⟩ oneBlockTree
    (signedOneTree .minus) rfl rfl rfl hparse rfl (isExpression_oneBlock _) rfl
  exact absurd (congrArg Prod.fst hsame) (by decide +kernel)

end Fern
