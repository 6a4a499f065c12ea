import Mathlib.Tactic
import Fern.Proofs.Lexing.Writing

/-!
Segments before other texts. A segment that fits is read as one piece, and it fits before every text
that begins like the one after it.

* `scansAs_of_fits`: a segment that fits is one piece, unless a slash makes a comment with the text
  after it.
* `Segment.Fits.cut`: a segment that fits before a text fits before the front of this text.
* `exists_split_of_tokensFrom`: the text before the first problem has tokens on its own.
-/

namespace Fern.Token

open Text

variable {c d : Char} {cs ds rest bad lexeme : List Char} {kind : Kind} {s : Segment}

/-! ### Segments that fit -/

/-- Whether a slash opens a comment depends on the character after it. -/
lemma OpensComment.append {text : List Char} (h : OpensComment text rest) :
    OpensComment text (rest ++ bad) :=
  ⟨h.1, h.2.imp (fun h => by simp [h]) fun h => by simp [h]⟩

/-- A segment that fits is one piece, unless it is a slash that opens a comment. -/
theorem scansAs_of_fits (h : s.Fits rest) (hcomment : ¬ OpensComment s.text rest) :
    ScansAs s.text rest s.token? := by
  cases s with
  | blanks cs =>
      obtain ⟨hne, hblank, hrest⟩ := h
      cases cs with
      | nil => exact absurd rfl hne
      | cons c cs =>
          refine ⟨c, .gap cs, rfl, rfl, ?_⟩
          rw [scan, if_pos (hblank c List.mem_cons_self)]
          exact congrArg (fun more => Except.ok (Piece.gap more))
            (takeWhile_append_of_head (fun d hd => hblank d (List.mem_cons_of_mem _ hd)) hrest)
  | lineComment body =>
      obtain ⟨hbody, hrest⟩ := h
      obtain ⟨more, rfl⟩ := List.head?_eq_some_iff.mp hrest
      exact scansAs_lineComment hbody
  | blockComment body => exact scansAs_blockComment h
  | token kind lexeme => exact scansAs_of_spells h.1 h.2 hcomment

/-- What is the longest token in a text is the longest one in the front of this text. -/
lemma LongestIn.shorten {text text' : List Char} (h : LongestIn text' lexeme)
    (hfront : text <+: text') : LongestIn text lexeme :=
  fun kind other hplain hspells hother => h kind other hplain hspells (hother.trans hfront)

/-- A segment fits before the front of the text after it, if that text is not cut at the newline
that ends a comment. -/
theorem Segment.Fits.cut (h : s.Fits (rest ++ bad)) (hbad : bad.head? ≠ some '\n') :
    s.Fits rest := by
  cases s with
  | blanks cs =>
      refine ⟨h.1, h.2.1, fun c hc => h.2.2 c ?_⟩
      rw [List.head?_append, Option.mem_def.mp hc]
      rfl
  | lineComment body =>
      refine ⟨h.1, ?_⟩
      cases rest with
      | nil => exact absurd h.2 hbad
      | cons c cs => exact h.2
  | blockComment body => exact h
  | token kind lexeme =>
      exact ⟨h.1, fun hplain => (h.2 hplain).shorten (List.prefix_append_right_inj _ |>.mpr
        (List.prefix_append rest bad))⟩

/-- Two slashes, or a slash and a star, are no token. -/
lemma not_opensComment_of_scan {p : Piece} (h : scan c (p.more ++ rest) = .ok p) :
    ¬ OpensComment (c :: p.more) rest := by
  rintro ⟨htext, hrest⟩
  obtain ⟨rfl, hmore⟩ := List.cons.inj htext
  rw [hmore, List.nil_append] at h
  rcases hrest with hhead | hhead
  all_goals obtain ⟨cs, rfl⟩ := List.head?_eq_some_iff.mp hhead
  · have hscan : scan '/' ('/' :: cs) = scanLineComment ('/' :: cs) := by
      simp [scan, isBlank, blankRanges]
    rw [hscan, scanLineComment] at h
    split at h
    · cases h
      simp [Piece.gap] at hmore
    · cases h
  · have hscan : scan '/' ('*' :: cs) = scanBlockComment cs := by
      simp [scan, isBlank, blankRanges]
    rw [hscan, scanBlockComment] at h
    split at h
    · cases h
      simp [Piece.gap] at hmore
    · cases h

/-- Every text that begins with a blank has a piece at its front. -/
lemma isBlank_eq_false_of_scan {problem : Problem} (h : scan c cs = .error problem) :
    isBlank c = false := by
  by_contra hblank
  rw [Bool.not_eq_false] at hblank
  rw [scan, if_pos hblank] at h
  cases h

/-- A piece at the front of a text is at the front of the text up to a problem, too. -/
lemma scansAs_cut {p : Piece} {problem : Problem} {cs' : List Char}
    (h : scan c (p.more ++ rest ++ d :: cs') = .ok p) (hbad : scan d cs' = .error problem) :
    ScansAs (c :: p.more) rest p.token := by
  have hnewline : (d :: cs').head? ≠ some '\n' := by
    rintro heq
    cases heq
    exact absurd (isBlank_eq_false_of_scan hbad) (by decide)
  obtain ⟨s, after, htext, hafter, htoken, hfits⟩ := isSegment_of_scan h
  rw [List.append_assoc, List.append_cancel_left_eq] at hafter
  subst hafter
  rw [← htext, ← htoken]
  refine scansAs_of_fits (hfits.cut hnewline) fun hopens => ?_
  rw [List.append_assoc] at h
  exact not_opensComment_of_scan h (htext ▸ hopens.append)

end Token

/-! ### Texts with a problem -/

open Token

variable {l : Location} {cs : List Char} {d : Diagnostic}

/-- **Cutting at the first problem**: at the front of the text from the problem on there is no
piece, and the text before it has tokens on its own. -/
theorem exists_split_of_tokensFrom (h : tokensFrom l cs = .error d) :
    ∃ good c rest problem tokens, cs = good ++ c :: rest ∧ scan c rest = .error problem ∧
      d = .error problem (l.advanceOver good) ∧ tokensFrom l good = .ok tokens := by
  fun_induction tokensFrom l cs with
  | case1 => cases h
  | case2 l c cs problem hscan =>
      cases h
      exact ⟨[], c, cs, problem, [], rfl, hscan, rfl, by rw [tokensFrom]⟩
  | case3 l c cs piece hscan ih =>
      have hothers : tokensFrom (l.advanceOver (c :: piece.more)) (cs.drop piece.more.length)
          = .error d := by
        cases hrest : tokensFrom (l.advanceOver (c :: piece.more)) (cs.drop piece.more.length) with
        | ok tokens =>
            rw [hrest] at h
            cases h
        | error e =>
            rw [hrest] at h
            cases h
            rfl
      obtain ⟨good, c', rest, problem, tokens, htext, hscan', rfl, htokens⟩ := ih hothers
      obtain ⟨more, rfl⟩ := scan_more_prefix hscan
      rw [List.drop_left] at htext
      subst htext
      rw [← List.append_assoc] at hscan
      have hread := tokensFrom_of_scansAs (l := l) (scansAs_cut hscan hscan')
      rw [htokens] at hread
      refine ⟨c :: piece.more ++ good, c', rest, problem, _, by simp, hscan', ?_, hread⟩
      rw [← Location.advanceOver_append]

end Fern
