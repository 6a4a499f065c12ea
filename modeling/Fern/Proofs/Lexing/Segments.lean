import Mathlib.Data.List.TakeWhile
import Mathlib.Tactic
import Fern.Proofs.Lexing.Scanner
import Fern.Token.Stream

/-!
The segments of a source text: what the scanner splits it into, and that it takes no less than it
can.

* `Segment`: blanks, comments and tokens, and `Segment.text`, the characters of each.
* `Segment.Fits`: what a segment is allowed to be where a given text follows it.
* `tokensAfter`: the tokens of a sequence of segments, each at the place that the text before it
  leads to.
* `isSegment_of_scan`: a piece is a segment that fits where it stands.
* `tokenize_segments` (**soundness**): a text that has tokens is a sequence of segments that fit,
  and the tokens are theirs.
-/

namespace Fern.Token

open Text

/-- What a source text is made of. A line comment is given from after its slashes to before the
newline, a block comment by what stands between its two ends. -/
inductive Segment where
  | blanks (cs : List Char)
  | lineComment (body : List Char)
  | blockComment (body : List Char)
  | token (kind : Kind) (lexeme : List Char)

/-- No word, number or punctuation at the front of `text` is longer than `lexeme`. -/
def LongestIn (text lexeme : List Char) : Prop :=
  ∀ kind other, kind.isQuoted = false → Spells kind other → other <+: text →
    other.length ≤ lexeme.length

namespace Segment

/-- The characters of a segment. -/
def text : Segment → List Char
  | blanks cs => cs
  | lineComment body => '/' :: '/' :: body
  | blockComment body => '/' :: '*' :: body ++ ['*', '/']
  | token kind lexeme => written kind lexeme

/-- The kind and lexeme of a segment that is a token. -/
def token? : Segment → Option (Kind × List Char)
  | token kind lexeme => some (kind, lexeme)
  | _ => none

/-- A segment is what it says it is when the text after it is `rest`. -/
def Fits : Segment → List Char → Prop
  | blanks cs, rest => cs ≠ [] ∧ (∀ c ∈ cs, isBlank c) ∧ ∀ c ∈ rest.head?, isBlank c = false
  | lineComment body, rest => '\n' ∉ body ∧ rest.head? = some '\n'
  | blockComment body, _ => ClosesFirst body
  | token kind lexeme, rest =>
      Spells kind lexeme ∧ (kind.isQuoted = false → LongestIn (lexeme ++ rest) lexeme)

/-- All segments of a sequence fit. -/
def AllFit : List Segment → Prop
  | [] => True
  | s :: ss => s.Fits (ss.flatMap text) ∧ AllFit ss

end Segment

/-- The tokens of a sequence of segments that the text `before` precedes. -/
def tokensAfter (before : List Char) : List Segment → List Token
  | [] => []
  | s :: ss =>
      (s.token?.map fun (kind, lexeme) =>
        ⟨kind, String.ofList lexeme, Location.start.advanceOver before⟩).toList ++
        tokensAfter (before ++ s.text) ss

variable {c d : Char} {cs ds rest : List Char} {kind : Kind}

/-! ### The longest token -/

lemma length_le_length_takeWhile {p : Char → Bool} (h : ds <+: cs) (hall : ∀ d ∈ ds, p d) :
    ds.length ≤ (cs.takeWhile p).length := by
  obtain ⟨rest, rfl⟩ := h
  rw [List.takeWhile_append_of_pos hall, List.length_append]
  omega

/-- The first character is in every token that counts. -/
lemma longestIn_cons
    (h : ∀ kind es, kind.isQuoted = false → Spells kind (c :: es) → es <+: cs →
      es.length ≤ ds.length) :
    LongestIn (c :: cs) (c :: ds) := by
  intro kind other hplain hother hprefix
  rcases List.prefix_cons_iff.mp hprefix with rfl | ⟨es, rfl, hes⟩
  · exact Nat.zero_le _
  · exact Nat.succ_le_succ (h kind es hplain hother hes)

lemma longestIn_word (hstart : isWordStart c) :
    LongestIn (c :: cs) (c :: cs.takeWhile isWordPart) := by
  refine longestIn_cons fun kind es hplain hspells hes => ?_
  have hdigit : ¬ c.isDigit := by simp [isDigit_of_isWordStart hstart]
  rcases hspells.cons_cases hplain with
    ⟨_, hparts⟩ | ⟨h, _⟩ | ⟨h, _⟩ | ⟨rfl, _⟩ | ⟨d, _, hmem⟩
  · exact length_le_length_takeWhile hes hparts
  · exact absurd h hdigit
  · exact absurd h hdigit
  · exact Nat.zero_le _
  · simp [(punctuation_class (.inr ⟨d, hmem⟩)).2.1] at hstart

/-- A point after digits with a digit after it: it stands in the same place in every number. -/
lemma fraction_prefix_inj {es fs : List Char} {e f : Char} (hds : ∀ d ∈ ds, d.isDigit)
    (hes : ∀ d ∈ es, d.isDigit) (h : es ++ '.' :: e :: fs <+: ds ++ '.' :: f :: rest) :
    es = ds ∧ fs <+: rest := by
  obtain ⟨more, heq⟩ := h
  have htake := congrArg (List.takeWhile Char.isDigit) heq
  rw [List.append_assoc, List.takeWhile_append_of_pos hes,
    List.takeWhile_append_of_pos hds] at htake
  have hsame : es = ds := by simpa [Char.isDigit] using htake
  subst hsame
  simp only [List.append_assoc, List.append_cancel_left_eq, List.cons_append,
    List.cons.injEq] at heq
  exact ⟨rfl, more, heq.2.2⟩

lemma longestIn_float (hdigit : c.isDigit) (hds : ∀ d ∈ ds, d.isDigit) :
    LongestIn (c :: (ds ++ '.' :: d :: rest))
      (c :: (ds ++ '.' :: d :: rest.takeWhile Char.isDigit)) := by
  refine longestIn_cons fun kind es hplain hspells hes => ?_
  rcases hspells.cons_cases hplain with
    ⟨hstart, _⟩ | ⟨_, hdigits⟩ | ⟨_, es, e, fs, rfl, hes', _, hfs⟩ | ⟨rfl, _⟩ | ⟨d, _, hmem⟩
  · simp [isDigit_of_isWordStart hstart] at hdigit
  · have hle := length_le_length_takeWhile hes hdigits
    rw [List.takeWhile_append_of_pos hds] at hle
    simp only [List.length_append, List.length_cons, List.takeWhile_cons] at hle ⊢
    simp [Char.isDigit] at hle
    omega
  · obtain ⟨rfl, hfs'⟩ := fraction_prefix_inj hds hes' hes
    have hle := length_le_length_takeWhile hfs' hfs
    simp only [List.length_append, List.length_cons]
    omega
  · exact Nat.zero_le _
  · simp [(punctuation_class (.inr ⟨d, hmem⟩)).2.2.1] at hdigit

lemma longestIn_integer (hdigit : c.isDigit) (h : fraction (cs.dropWhile Char.isDigit) = []) :
    LongestIn (c :: cs) (c :: cs.takeWhile Char.isDigit) := by
  refine longestIn_cons fun kind es hplain hspells hes => ?_
  rcases hspells.cons_cases hplain with
    ⟨hstart, _⟩ | ⟨_, hdigits⟩ | ⟨_, es, e, fs, rfl, hes', he, _⟩ | ⟨rfl, _⟩ | ⟨d, _, hmem⟩
  · simp [isDigit_of_isWordStart hstart] at hdigit
  · exact length_le_length_takeWhile hes hdigits
  · -- the text goes on with a fraction, which is excluded
    obtain ⟨more, rfl⟩ := hes
    have hpoint : Char.isDigit '.' = false := rfl
    rw [List.append_assoc, List.dropWhile_append_of_pos hes'] at h
    simp [hpoint, fraction, he] at h
  · exact Nat.zero_le _
  · simp [(punctuation_class (.inr ⟨d, hmem⟩)).2.2.1] at hdigit

/-- A piece that begins like no word and no number is at most a pair. -/
lemma longestIn_pair (hstart : isWordStart c = false) (hdigit : c.isDigit = false) :
    LongestIn (c :: cs) [c, d] := by
  refine longestIn_cons fun kind es hplain hspells _ => ?_
  rcases hspells.cons_cases hplain with
    ⟨h, _⟩ | ⟨h, _⟩ | ⟨h, _⟩ | ⟨rfl, _⟩ | ⟨d, rfl, _⟩
  · simp [hstart] at h
  · simp [hdigit] at h
  · simp [hdigit] at h
  · exact Nat.zero_le _
  · exact le_rfl

lemma longestIn_single (hstart : isWordStart c = false) (hdigit : c.isDigit = false)
    (hpair : pairKind? c cs = none) : LongestIn (c :: cs) [c] := by
  refine longestIn_cons fun kind es hplain hspells hes => ?_
  rcases hspells.cons_cases hplain with
    ⟨h, _⟩ | ⟨h, _⟩ | ⟨h, _⟩ | ⟨rfl, _⟩ | ⟨d, rfl, hmem⟩
  · simp [hstart] at h
  · simp [hdigit] at h
  · simp [hdigit] at h
  · exact le_rfl
  · obtain ⟨more, rfl⟩ := hes
    have hfound : pairKind? c (d :: more) = some (d, kind) :=
      pairKind?_eq_some_iff.mpr ⟨rfl, hmem⟩
    cases hpair.symm.trans hfound

/-! ### Pieces are segments -/

/-- The piece at the front of `c :: cs` is a segment that fits there. -/
def IsSegment (c : Char) (cs : List Char) (p : Piece) : Prop :=
  ∃ (s : Segment) (rest : List Char),
    s.text = c :: p.more ∧ cs = p.more ++ rest ∧ s.token? = p.token ∧ s.Fits rest

lemma isSegment_blanks (h : isBlank c) : IsSegment c cs (.gap (cs.takeWhile isBlank)) := by
  refine ⟨.blanks (c :: cs.takeWhile isBlank), cs.dropWhile isBlank, rfl,
    List.takeWhile_append_dropWhile.symm, rfl, List.cons_ne_nil _ _, ?_, ?_⟩
  · rintro d (_ | ⟨_, hd⟩)
    · exact h
    · exact List.mem_takeWhile_imp hd
  · intro d hd
    have hhead := List.head?_dropWhile_not isBlank cs
    rwa [Option.mem_def.mp hd] at hhead

lemma isSegment_plain (rest : List Char) (hspells : Spells kind (c :: ds))
    (hplain : kind.isQuoted = false)
    (hlongest : LongestIn (c :: (ds ++ rest)) (c :: ds)) :
    IsSegment c (ds ++ rest) (.plain kind c ds) :=
  ⟨.token kind (c :: ds), rest, written_of_not_isQuoted hplain _, rfl, rfl, hspells,
    fun _ => hlongest⟩

lemma isSegment_lineComment {p : Piece} (h : scanLineComment ('/' :: cs) = .ok p) :
    IsSegment '/' ('/' :: cs) p := by
  unfold scanLineComment at h
  split at h
  · next hmem =>
    cases h
    have hbody : '\n' ∉ cs.takeWhile (· ≠ '\n') := fun hin => by
      simpa using List.mem_takeWhile_imp hin
    refine ⟨.lineComment (cs.takeWhile (· ≠ '\n')), cs.dropWhile (· ≠ '\n'),
      by simp [Segment.text, Piece.gap], by simp [Piece.gap], rfl, hbody, ?_⟩
    have hhead := List.head?_dropWhile_not (· ≠ '\n') cs
    cases hrest : (cs.dropWhile (· ≠ '\n')).head? with
    | none =>
        have hall := List.dropWhile_eq_nil_iff.mp (List.head?_eq_none_iff.mp hrest)
        rcases List.mem_cons.mp hmem with heq | hin
        · cases heq
        · simpa using hall _ hin
    | some d =>
        rw [hrest] at hhead
        simpa using hhead
  · cases h

lemma isSegment_blockComment {p : Piece} (h : scanBlockComment cs = .ok p) :
    IsSegment '/' ('*' :: cs) p := by
  unfold scanBlockComment at h
  split at h
  · next text htext =>
    cases h
    obtain ⟨body, rest, rfl, rfl, hbody⟩ := throughCommentEnd_eq_some_iff.mp htext
    exact ⟨.blockComment body, rest, rfl, by simp [Piece.gap], rfl, hbody⟩
  · cases h

lemma isSegment_string {p : Piece} (h : (stringBody cs).map (.quoted .string '"') = .ok p) :
    IsSegment '"' cs p := by
  obtain ⟨body, hbody, rfl⟩ := map_eq_ok_iff.mp h
  obtain ⟨htext, rest, rfl⟩ := stringBody_eq_ok_iff.mp hbody
  exact ⟨.token .string body, rest, rfl, by simp [Piece.quoted], rfl, .string htext,
    fun h => by cases h⟩

lemma isSegment_char {p : Piece} (h : scanChar cs = .ok p) : IsSegment '\'' cs p := by
  obtain ⟨body, rest, hbody, rfl, rfl⟩ := scanChar_eq_ok_iff.mp h
  exact ⟨.token .char body, rest, rfl, by simp [Piece.quoted], rfl, .char hbody,
    fun h => by cases h⟩

lemma isSegment_word (hstart : isWordStart c) :
    IsSegment c cs
      (.plain (wordKind (c :: cs.takeWhile isWordPart)) c (cs.takeWhile isWordPart)) := by
  have hword : IsWord (c :: cs.takeWhile isWordPart) :=
    ⟨c, _, rfl, hstart, fun _ hd => List.mem_takeWhile_imp hd⟩
  have hlongest : LongestIn (c :: cs) (c :: cs.takeWhile isWordPart) := longestIn_word hstart
  have hsplit := List.takeWhile_append_dropWhile (p := isWordPart) (l := cs)
  have h := isSegment_plain (cs.dropWhile isWordPart) (wordKind_spells hword).1
    (wordKind_spells hword).2 (by rwa [hsplit])
  rwa [hsplit] at h

lemma isSegment_number (hdigit : c.isDigit) : IsSegment c cs (scanNumber c cs) := by
  have hsplit := List.takeWhile_append_dropWhile (p := Char.isDigit) (l := cs)
  rcases fraction_eq_nil_or (cs.dropWhile Char.isDigit) with hnil | ⟨d, rest, hrest, hd⟩
  · rw [scanNumber_of_fraction_eq_nil hnil]
    have h := isSegment_plain (cs.dropWhile Char.isDigit)
      (.integer hdigit fun _ hd => List.mem_takeWhile_imp hd) rfl
      (by rw [hsplit]; exact longestIn_integer hdigit hnil)
    rwa [hsplit] at h
  · have hdigits : ∀ e ∈ cs.takeWhile Char.isDigit, e.isDigit := fun _ => List.mem_takeWhile_imp
    rw [hrest] at hsplit
    generalize cs.takeWhile Char.isDigit = ds at hsplit hdigits
    subst hsplit
    rw [scanNumber_fraction hdigits hd]
    have hspells : Spells .float (c :: ds ++ '.' :: d :: rest.takeWhile Char.isDigit) :=
      .float hdigit hdigits hd fun _ => List.mem_takeWhile_imp
    have hcut := List.takeWhile_append_dropWhile (p := Char.isDigit) (l := rest)
    have h := isSegment_plain (rest.dropWhile Char.isDigit) hspells rfl
      (by simpa [hcut] using longestIn_float hdigit hdigits)
    simpa [hcut] using h

lemma isSegment_punctuation {p : Piece} (hstart : isWordStart c = false)
    (hdigit : c.isDigit = false) (h : scanPunctuation c cs = .ok p) : IsSegment c cs p := by
  unfold scanPunctuation at h
  split at h
  · next d kind hpair =>
    cases h
    obtain ⟨hhead, hmem⟩ := pairKind?_eq_some_iff.mp hpair
    obtain ⟨rest, rfl⟩ := List.head?_eq_some_iff.mp hhead
    exact isSegment_plain rest (.pair hmem) (isQuoted_of_mem_punctuation (.inr ⟨_, hmem⟩))
      (longestIn_pair hstart hdigit)
  · next hpair =>
    split at h
    · next kind hlookup =>
      cases h
      have hmem := lookup_punctuation_eq_some_iff.mp hlookup
      exact isSegment_plain cs (.single hmem) (isQuoted_of_mem_punctuation (.inl hmem))
        (longestIn_single hstart hdigit hpair)
    · cases h

/-- **Pieces are segments**: whichever rule of the scanner applies, the piece is a segment that fits
where it stands. -/
theorem isSegment_of_scan {p : Piece} (h : scan c cs = .ok p) : IsSegment c cs p := by
  unfold scan at h
  split at h
  · next hblank =>
    cases h
    exact isSegment_blanks hblank
  split at h
  · next hslash =>
    obtain ⟨rfl, hhead⟩ := hslash
    obtain ⟨cs, rfl⟩ := List.head?_eq_some_iff.mp hhead
    exact isSegment_lineComment h
  split at h
  · next hslash =>
    obtain ⟨rfl, hhead⟩ := hslash
    obtain ⟨cs, rfl⟩ := List.head?_eq_some_iff.mp hhead
    exact isSegment_blockComment h
  split at h
  · next hquote =>
    subst hquote
    exact isSegment_string h
  split at h
  · next hquote =>
    subst hquote
    exact isSegment_char h
  split at h
  · next hstart =>
    cases h
    exact isSegment_word hstart
  split at h
  · next hdigit =>
    cases h
    exact isSegment_number hdigit
  · next hstart hdigit =>
    exact isSegment_punctuation (Bool.not_eq_true _ ▸ hstart) (Bool.not_eq_true _ ▸ hdigit) h

end Token

/-! ### Whole texts -/

open Token

/-- The text from any place on falls into segments that fit. -/
lemma exists_segments_of_tokensFrom (before : List Char) {cs : List Char} {tokens : List Token}
    (h : tokensFrom (Location.start.advanceOver before) cs = .ok tokens) :
    ∃ ss : List Segment, ss.flatMap Segment.text = cs ∧ tokens = tokensAfter before ss ∧
      Segment.AllFit ss := by
  generalize hl : Location.start.advanceOver before = l at h
  fun_induction tokensFrom l cs generalizing before tokens with
  | case1 =>
      cases h
      exact ⟨[], rfl, rfl, trivial⟩
  | case2 => cases h
  | case3 l c cs piece hscan ih =>
      obtain ⟨others, hothers, rfl⟩ := map_eq_ok_iff.mp h
      obtain ⟨s, rest, htext, rfl, htoken, hfits⟩ := isSegment_of_scan hscan
      rw [List.drop_left] at hothers ih
      subst hl
      rw [← htext, ← Location.advanceOver_append] at hothers ih
      obtain ⟨ss, rfl, rfl, hall⟩ := ih _ rfl hothers
      refine ⟨s :: ss, ?_, ?_, hfits, hall⟩
      · rw [List.flatMap_cons, htext, List.cons_append]
      · rw [tokensAfter, htoken]
        rfl

lemma spells_of_mem_tokensAfter {before : List Char} {ss : List Segment} {t : Token}
    (hall : Segment.AllFit ss) (ht : t ∈ tokensAfter before ss) :
    Spells t.kind t.lexeme.toList := by
  induction ss generalizing before with
  | nil => cases ht
  | cons s ss ih =>
      rcases List.mem_append.mp ht with ht | ht
      · cases s with
        | token kind lexeme =>
            cases List.mem_singleton.mp ht
            simpa using hall.1.1
        | blanks => cases ht
        | lineComment => cases ht
        | blockComment => cases ht
      · exact ih hall.2 ht

/-- **Lexing is sound and takes the longest match**: a text that has tokens is a sequence of blanks,
closed comments and the texts of its tokens, each token stands at the place to which all characters
before it lead, has the kind that its lexeme spells, and no word, number or punctuation at its place
is longer than it, unless it is a literal in quotes. -/
theorem tokenize_segments {source : String} {log : Log} {tokens : List Token}
    (h : (tokenize source log).1 = some tokens) :
    (∃ segments : List Segment, segments.flatMap Segment.text = source.toList ∧
      tokens = tokensAfter [] segments ∧ Segment.AllFit segments) ∧
    ∀ t ∈ tokens, t.kind ≠ .comment ∧ t.kind ≠ .invalid ∧ t.kind ≠ .endOfInput := by
  have hfrom : tokensFrom .start source.toList = .ok tokens := by
    unfold tokenize at h
    split at h
    · next heq => rw [heq, Option.some.inj h]
    · cases h
  obtain ⟨ss, htext, rfl, hall⟩ := exists_segments_of_tokensFrom [] hfrom
  exact ⟨⟨ss, htext, rfl, hall⟩, fun t ht => (spells_of_mem_tokensAfter hall ht).kind_ne⟩

/-- Two tokens on two lines, with a comment and blanks between them. -/
theorem tokenize_segments_across_lines :
    (tokenize "ab//c\n <=" .empty).1 =
      some [⟨.ident, "ab", ⟨0, 0⟩⟩, ⟨.lessEqual, "<=", ⟨1, 1⟩⟩] ∧
    ∃ segments : List Segment, segments.flatMap Segment.text = "ab//c\n <=".toList ∧
      [⟨.ident, "ab", ⟨0, 0⟩⟩, ⟨.lessEqual, "<=", ⟨1, 1⟩⟩] = tokensAfter [] segments ∧
      Segment.AllFit segments := by
  have htokens : (tokenize "ab//c\n <=" .empty).1 =
      some [⟨.ident, "ab", ⟨0, 0⟩⟩, ⟨.lessEqual, "<=", ⟨1, 1⟩⟩] := by
    have hword : scan 'a' ['b', '/', '/', 'c', '\n', ' ', '<', '='] =
        .ok (.plain .ident 'a' ['b']) :=
      rfl
    have hcomment : scan '/' ['/', 'c', '\n', ' ', '<', '='] = .ok (.gap ['/', 'c']) := rfl
    have hblanks : scan '\n' [' ', '<', '='] = .ok (.gap [' ']) := rfl
    have hpair : scan '<' ['='] = .ok (.plain .lessEqual '<' ['=']) := rfl
    simp [tokenize, tokensFrom, hword, hcomment, hblanks, hpair, Piece.plain, Piece.gap, ofPiece,
      Location.start, Location.advance, Except.map]
  exact ⟨htokens, (tokenize_segments htokens).1⟩

end Fern
