import Mathlib.Tactic
import Fern.Proofs.Lexing.Fitting
import Fern.Proofs.Diagnostic.Joining

/-!
Source texts with a line break between them.

* `Segment.Fits.append`: a segment that fits before a text fits before a longer one, too, if the
  text goes on with a blank.
* `tokensFrom_append`: a text that has tokens is read alike when more text follows that begins with
  a blank.
* `Location.down`: the same column some lines further down. `tokensFrom_down`: what begins there is
  read alike, some lines further down.
* `tokenize_append_line`: two texts with a line break between them have the tokens of the one and
  those of the other, or the first problem of the second one.
-/

namespace Fern

namespace Token

open Text

variable {c : Char} {cs rest more lexeme : List Char} {s : Segment} {p : Piece}

/-! ### More text -/

/-- The longest token in a text is the longest one when the text goes on with a blank. -/
lemma LongestIn.append {text : List Char} (h : LongestIn text lexeme)
    (hmore : ∀ c ∈ more.head?, isBlank c) : LongestIn (text ++ more) lexeme := by
  intro kind other hplain hspells hprefix
  rcases List.prefix_or_prefix_of_prefix hprefix (List.prefix_append text more) with
    hfront | ⟨extra, rfl⟩
  · exact h kind other hplain hspells hfront
  cases extra with
  | nil => exact h kind _ hplain hspells (by simp)
  | cons d extra =>
      obtain ⟨after, rfl⟩ := (List.prefix_append_right_inj text).mp hprefix
      have hd := hspells.isBlank_eq_false hplain d (by simp)
      simp [hd] at hmore

/-- A segment that fits before a text fits when the text goes on with a blank. Blanks do not, where
they end the text. -/
theorem Segment.Fits.append (h : s.Fits rest) (hs : ∀ cs, s ≠ .blanks cs)
    (hmore : ∀ c ∈ more.head?, isBlank c) : s.Fits (rest ++ more) := by
  cases s with
  | blanks cs => exact absurd rfl (hs cs)
  | lineComment body =>
      refine ⟨h.1, ?_⟩
      rw [List.head?_append, h.2]
      rfl
  | blockComment body => exact h
  | token kind lexeme =>
      refine ⟨h.1, fun hplain => ?_⟩
      rw [← List.append_assoc]
      exact (h.2 hplain).append hmore

/-- A slash opens a comment before a text that goes on with a blank only if it does before the text
alone. -/
lemma OpensComment.of_append {text : List Char} (h : OpensComment text (rest ++ more))
    (hmore : ∀ c ∈ more.head?, isBlank c) : OpensComment text rest := by
  cases rest with
  | nil =>
      obtain ⟨-, hhead | hhead⟩ := h
      · exact absurd (hmore _ hhead) (by decide)
      · exact absurd (hmore _ hhead) (by decide)
  | cons d rest => exact h

lemma filler_of_forall_isBlank (h : ∀ c ∈ cs, isBlank c) : Filler cs := by
  induction cs with
  | nil => exact .nil
  | cons c cs ih => exact .blank (h c List.mem_cons_self) (ih fun d hd => h d (.tail _ hd))

end Token

open Token

variable {l : Location} {cs more : List Char} {tokens : List Token} {k : ℕ}

/-- A piece at the front of a text is read first when the text goes on with a blank. Blanks at the
end of the text make a longer piece then, and that leaves no tokens either. -/
lemma tokensFrom_piece {c : Char} {p : Piece} {rest : List Char}
    (h : scan c (p.more ++ rest) = .ok p) (hmore : ∀ c ∈ more.head?, Text.isBlank c) :
    tokensFrom l (c :: p.more ++ (rest ++ more)) =
      (tokensFrom (l.advanceOver (c :: p.more)) (rest ++ more)).map
        ((Token.ofPiece l p).toList ++ ·) := by
  obtain ⟨s, after, htext, hafter, htoken, hfits⟩ := isSegment_of_scan h
  obtain rfl := List.append_cancel_left hafter
  rw [Token.ofPiece, ← htoken, ← htext]
  by_cases hblanks : ∃ cs, s = .blanks cs
  · obtain ⟨cs, rfl⟩ := hblanks
    exact (tokensFrom_filler (filler_of_forall_isBlank hfits.2.1)).trans (map_nil_append _).symm
  · have hmorefits := hfits.append (fun cs heq => hblanks ⟨cs, heq⟩) hmore
    exact tokensFrom_of_scansAs (scansAs_of_fits hmorefits fun hopens =>
      not_opensComment_of_scan h (htext ▸ hopens.of_append hmore))

lemma map_append_map_append {ε α : Type} (x : Except ε (List α)) (as bs : List α) :
    (x.map (bs ++ ·)).map (as ++ ·) = x.map (as ++ bs ++ ·) := by
  cases x with
  | error e => rfl
  | ok cs => exact congrArg Except.ok (List.append_assoc as bs cs).symm

/-- **More text**: a text that has tokens has the same ones, and first, when it goes on with a
blank. -/
theorem tokensFrom_append (h : tokensFrom l cs = .ok tokens)
    (hmore : ∀ c ∈ more.head?, Text.isBlank c) :
    tokensFrom l (cs ++ more) = (tokensFrom (l.advanceOver cs) more).map (tokens ++ ·) := by
  fun_induction tokensFrom l cs generalizing tokens with
  | case1 =>
      cases h
      exact (map_nil_append _).symm
  | case2 => cases h
  | case3 l c cs p hscan ih =>
      obtain ⟨others, hothers, rfl⟩ := map_eq_ok_iff.mp h
      obtain ⟨rest, rfl⟩ := scan_more_prefix hscan
      rw [List.drop_left] at hothers ih
      calc tokensFrom l (c :: (p.more ++ rest) ++ more)
          = tokensFrom l (c :: p.more ++ (rest ++ more)) := by simp
        _ = (tokensFrom (l.advanceOver (c :: p.more)) (rest ++ more)).map
              ((Token.ofPiece l p).toList ++ ·) := tokensFrom_piece hscan hmore
        _ = ((tokensFrom ((l.advanceOver (c :: p.more)).advanceOver rest) more).map
              (others ++ ·)).map ((Token.ofPiece l p).toList ++ ·) := by rw [ih hothers]
        _ = (tokensFrom (l.advanceOver (c :: (p.more ++ rest))) more).map
              ((Token.ofPiece l p).toList ++ others ++ ·) := by
            rw [map_append_map_append, ← Location.advanceOver_append]
            rfl

/-! ### Further down -/

namespace Location

/-- The same column, `k` lines further down. -/
def down (k : ℕ) (l : Location) : Location := ⟨l.line + k, l.column⟩

@[simp] lemma advance_down (l : Location) (c : Char) :
    (l.down k).advance c = (l.advance c).down k := by
  unfold advance
  split
  · simp only [down, Nat.add_right_comm]
  · rfl

@[simp] lemma advanceOver_down (l : Location) (cs : List Char) :
    (l.down k).advanceOver cs = (l.advanceOver cs).down k := by
  induction cs generalizing l with
  | nil => rfl
  | cons c cs ih => rw [advanceOver_cons, advance_down, ih, advanceOver_cons]

/-- A text ends as many lines down as there are newlines in it. -/
lemma line_advanceOver (l : Location) (cs : List Char) :
    (l.advanceOver cs).line = l.line + cs.count '\n' := by
  induction cs generalizing l with
  | nil => rfl
  | cons c cs ih =>
      rw [advanceOver_cons, ih, advance]
      split
      · next hc => simp [hc, Nat.add_assoc, Nat.add_comm 1]
      · next hc => simp [hc]

/-- After a text and a newline, reading is in the first column again. -/
lemma advance_newline (cs : List Char) :
    (start.advanceOver cs).advance '\n' = start.down (cs.count '\n' + 1) := by
  rw [advance, if_pos rfl, line_advanceOver, down, Nat.add_assoc]
  rfl

end Location

open Location (down)

/-- **Further down**: a text is read alike wherever its first line is. -/
theorem tokensFrom_down (k : ℕ) (l : Location) (cs : List Char) :
    tokensFrom (l.down k) cs = ((tokensFrom l cs).map (List.map (Token.relocate (down k)))).mapError
      (Diagnostic.relocate (down k)) := by
  fun_induction tokensFrom l cs with
  | case1 => rw [tokensFrom]; rfl
  | case2 l c cs problem hscan => rw [tokensFrom, hscan]; rfl
  | case3 l c cs p hscan ih =>
      rw [tokensFrom, hscan]
      simp only [Location.advanceOver_down, ih]
      have htoken : Token.ofPiece (l.down k) p = (Token.ofPiece l p).map (relocate (down k)) := by
        rw [Token.ofPiece, Token.ofPiece, Option.map_map]
        rfl
      rw [htoken]
      cases tokensFrom (l.advanceOver (c :: p.more)) (cs.drop p.more.length) with
      | error d => rfl
      | ok tokens => cases Token.ofPiece l p <;> rfl

/-! ### Two texts -/

/-- What is read of two texts with a line break between them. -/
lemma tokensFrom_append_line {as : List Char} (bs : List Char)
    (h : tokensFrom .start as = .ok tokens) :
    tokensFrom .start (as ++ '\n' :: bs) =
      (((tokensFrom .start bs).map (List.map (Token.relocate (down (as.count '\n' + 1))))).mapError
        (Diagnostic.relocate (down (as.count '\n' + 1)))).map (tokens ++ ·) := by
  have hbreak : ∀ c ∈ ('\n' :: bs).head?, Text.isBlank c := by
    rintro c ⟨⟩
    rfl
  rw [tokensFrom_append h hbreak, tokensFrom_blank rfl, Location.advance_newline, tokensFrom_down]

/-- **Texts line by line**: where a text that has tokens and a line break stand before another text,
the tokens are those of the two texts, with the second text's further down by the lines before it.
If the second text has no tokens, the problem in it is the one that is found, as much further
down. -/
theorem tokenize_append_line (a b : String) (ta : List Token) (loga logb log : Log)
    (h : (tokenize a loga).1 = some ta) :
    (∀ tb, (tokenize b logb).1 = some tb →
      tokenize (a ++ "\n" ++ b) log =
        (some (ta ++ tb.map (Token.relocate (down (a.toList.count '\n' + 1)))), log)) ∧
    ((tokenize b logb).1 = none → ∃ problem l,
      tokenize b logb = (none, logb.recordError problem l) ∧
      tokenize (a ++ "\n" ++ b) log =
        (none, log.recordError problem (l.down (a.toList.count '\n' + 1)))) := by
  have hjoined : (a ++ "\n" ++ b).toList = a.toList ++ '\n' :: b.toList := by simp
  have hread := tokensFrom_append_line b.toList (tokensFrom_of_tokenize h)
  rw [← hjoined] at hread
  refine ⟨fun tb htb => ?_, fun hnone => ?_⟩
  · rw [tokensFrom_of_tokenize htb] at hread
    exact tokenize_of_ok hread log
  · obtain ⟨d, hd⟩ := exists_of_tokenize_eq_none hnone
    obtain ⟨good, c, rest, problem, tokens, -, -, rfl, -⟩ := exists_split_of_tokensFrom hd
    rw [hd] at hread
    exact ⟨problem, _, tokenize_of_error hd logb, tokenize_of_error hread log⟩

/-- A comment in one text, a name in the next and a problem in another. -/
theorem tokenize_append_line_names :
    (tokenize "// a\nx" .empty).1 = some [⟨.ident, "x", ⟨1, 0⟩⟩] ∧
    tokenize ("// a\nx" ++ "\n" ++ "\n y") .empty =
      (some [⟨.ident, "x", ⟨1, 0⟩⟩, ⟨.ident, "y", ⟨3, 1⟩⟩], .empty) ∧
    ∃ problem l, tokenize "z $" .empty = (none, Log.empty.recordError problem l) ∧
      tokenize ("// a\nx" ++ "\n" ++ "z $") .empty =
        (none, Log.empty.recordError problem (l.down 2)) := by
  have hfirst : (tokenize "// a\nx" .empty).1 = some [⟨.ident, "x", ⟨1, 0⟩⟩] := by decide +kernel
  exact ⟨hfirst,
    (tokenize_append_line _ "\n y" _ .empty .empty .empty hfirst).1 [⟨.ident, "y", ⟨1, 1⟩⟩]
      (by decide +kernel),
    (tokenize_append_line _ "z $" _ .empty .empty .empty hfirst).2 (by decide +kernel)⟩

end Fern
