import Mathlib.Tactic
import Fern.Proofs.Lexing.Segments

/-!
Tokens that are written one after the other are read back.

* `Filler`, `Separator`: blanks and comments, and those that can stand between any two tokens.
* `Item`: a token and the separator after it.
* `ScansAs`: a text is one piece where a given text follows it.
* `scansAs_of_spells`, `scansAs_written`: a token is one piece if it is the longest one in the text,
  and so where a blank follows it.
* `tokensFrom_filler`: blanks and comments leave no tokens.
* `tokenize_written` (**round trip**): separated tokens are what their text is read as.
-/

namespace Fern.Token

open Text

/-- Any sequence of blanks, line comments with their newlines and closed block comments. -/
inductive Filler : List Char → Prop
  | nil : Filler []
  | blank {c cs} (h : isBlank c) (others : Filler cs) : Filler (c :: cs)
  | lineComment {body cs} (h : '\n' ∉ body) (others : Filler cs) :
      Filler ('/' :: '/' :: body ++ '\n' :: cs)
  | blockComment {body cs} (h : ClosesFirst body) (others : Filler cs) :
      Filler ('/' :: '*' :: body ++ ['*', '/'] ++ cs)

/-- A blank, and blanks and comments after it. -/
structure Separator where
  first : Char
  more : List Char
  isBlank_first : isBlank first
  filler : Filler more

/-- A token that is followed by a separator. -/
structure Item where
  kind : Kind
  lexeme : List Char
  spells : Spells kind lexeme
  separator : Separator

/-- The characters of a separator. -/
def Separator.text (s : Separator) : List Char := s.first :: s.more

/-- The characters of a token and its separator. -/
def Item.text (i : Item) : List Char := written i.kind i.lexeme ++ i.separator.text

/-- Before `rest`, the text is one piece with the given kind and lexeme. -/
def ScansAs (text rest : List Char) (token : Option (Kind × List Char)) : Prop :=
  ∃ c piece, text = c :: piece.more ∧ piece.token = token ∧ scan c (piece.more ++ rest) = .ok piece

variable {c d : Char} {cs ds rest body lexeme : List Char} {kind : Kind}

/-! ### Rules of the scanner -/

lemma scan_word (h : isWordStart c) :
    scan c cs =
      .ok (.plain (wordKind (c :: cs.takeWhile isWordPart)) c (cs.takeWhile isWordPart)) := by
  have hblank := isBlank_of_isWordPart (isWordPart_iff.mpr (.inl h))
  have hslash : c ≠ '/' := ne_of_class h rfl
  have hquote : c ≠ '"' := ne_of_class h rfl
  have hquote' : c ≠ '\'' := ne_of_class h rfl
  simp [scan, hblank, hslash, hquote, hquote', h]

lemma scan_number (h : c.isDigit) : scan c cs = .ok (scanNumber c cs) := by
  have hslash : c ≠ '/' := ne_of_class h rfl
  have hquote : c ≠ '"' := ne_of_class h rfl
  have hquote' : c ≠ '\'' := ne_of_class h rfl
  simp [scan, isBlank_of_isDigit h, hslash, hquote, hquote', isWordStart_of_isDigit h, h]

lemma scan_punctuation (h : (c, kind) ∈ punctuation ∨ ∃ d, (c, d, kind) ∈ punctuationPairs)
    (hline : ¬ (c = '/' ∧ cs.head? = some '/')) (hblock : ¬ (c = '/' ∧ cs.head? = some '*')) :
    scan c cs = scanPunctuation c cs := by
  obtain ⟨hblank, hstart, hdigit, hquote, hquote'⟩ := punctuation_class h
  simp [scan, hblank, hline, hblock, hquote, hquote', hstart, hdigit]

/-! ### Tokens before a given text -/

/-- A run of characters of a class ends where a character of another class comes. -/
lemma takeWhile_append_of_head {p : Char → Bool} (hds : ∀ d ∈ ds, p d)
    (hrest : ∀ c ∈ rest.head?, p c = false) : (ds ++ rest).takeWhile p = ds := by
  rw [List.takeWhile_append_of_pos hds]
  cases rest with
  | nil => simp
  | cons c cs => simp [hrest c rfl]

lemma scansAs_word (h : IsWord lexeme) (hrest : ∀ c ∈ rest.head?, isWordPart c = false) :
    ScansAs lexeme rest (some (wordKind lexeme, lexeme)) := by
  obtain ⟨c, ds, rfl, hstart, hparts⟩ := h
  refine ⟨c, .plain (wordKind (c :: ds)) c ds, rfl, rfl, ?_⟩
  simp only [Piece.plain]
  rw [scan_word hstart, takeWhile_append_of_head hparts hrest]
  rfl

lemma scansAs_integer (hdigit : c.isDigit) (hdigits : ∀ d ∈ ds, d.isDigit)
    (hrest : ∀ c ∈ rest.head?, c.isDigit = false) (hfraction : fraction rest = []) :
    ScansAs (c :: ds) rest (some (.integer, c :: ds)) := by
  have htake := takeWhile_append_of_head hdigits hrest
  have hdrop : (ds ++ rest).dropWhile Char.isDigit = rest := by
    have hsplit := List.takeWhile_append_dropWhile (p := Char.isDigit) (l := ds ++ rest)
    rwa [htake, List.append_cancel_left_eq] at hsplit
  refine ⟨c, .plain .integer c ds, rfl, rfl, ?_⟩
  simp only [Piece.plain]
  rw [scan_number hdigit, scanNumber_of_fraction_eq_nil (by rw [hdrop, hfraction]), htake]
  rfl

lemma scansAs_float (hdigit : c.isDigit) (hds : ∀ d ∈ ds, d.isDigit) (hdigit' : d.isDigit)
    (hcs : ∀ e ∈ cs, e.isDigit) (hrest : ∀ c ∈ rest.head?, c.isDigit = false) :
    ScansAs (c :: ds ++ '.' :: d :: cs) rest (some (.float, c :: ds ++ '.' :: d :: cs)) := by
  refine ⟨c, .plain .float c (ds ++ '.' :: d :: cs), rfl, rfl, ?_⟩
  simp only [Piece.plain, List.append_assoc, List.cons_append]
  rw [scan_number hdigit, scanNumber_fraction hds hdigit', takeWhile_append_of_head hcs hrest]
  rfl

lemma scansAs_single (h : (c, kind) ∈ punctuation) (hpair : pairKind? c rest = none)
    (hline : ¬ (c = '/' ∧ rest.head? = some '/')) (hblock : ¬ (c = '/' ∧ rest.head? = some '*')) :
    ScansAs [c] rest (some (kind, [c])) := by
  refine ⟨c, .plain kind c [], rfl, rfl, ?_⟩
  simp only [Piece.plain, List.nil_append]
  rw [scan_punctuation (.inl h) hline hblock, scanPunctuation, hpair,
    lookup_punctuation_eq_some_iff.mpr h]
  rfl

lemma scansAs_pair (h : (c, d, kind) ∈ punctuationPairs) :
    ScansAs [c, d] rest (some (kind, [c, d])) := by
  have hall : ∀ p ∈ punctuationPairs, p.1 ≠ '/' := by decide
  have hslash : c ≠ '/' := hall _ h
  have hpair : pairKind? c (d :: rest) = some (d, kind) := pairKind?_eq_some_iff.mpr ⟨rfl, h⟩
  refine ⟨c, .plain kind c [d], rfl, rfl, ?_⟩
  simp only [Piece.plain, List.cons_append, List.nil_append]
  rw [scan_punctuation (.inr ⟨d, h⟩) (fun hc => hslash hc.1) (fun hc => hslash hc.1),
    scanPunctuation, hpair]
  rfl

lemma scansAs_string (h : StringText body) :
    ScansAs ('"' :: body ++ ['"']) rest (some (.string, body)) := by
  refine ⟨'"', .quoted .string '"' body, rfl, rfl, ?_⟩
  have hbody : stringBody (body ++ '"' :: rest) = .ok body :=
    stringBody_eq_ok_iff.mpr ⟨h, rest, rfl⟩
  have hscan : scan '"' (body ++ '"' :: rest) =
      (stringBody (body ++ '"' :: rest)).map (.quoted .string '"') := by
    simp [scan, isBlank, blankRanges]
  simp only [Piece.quoted, List.append_assoc, List.cons_append, List.nil_append]
  rw [hscan, hbody]
  rfl

lemma scansAs_char (h : CharText body) :
    ScansAs ('\'' :: body ++ ['\'']) rest (some (.char, body)) := by
  refine ⟨'\'', .quoted .char '\'' body, rfl, rfl, ?_⟩
  have hbody : scanChar (body ++ '\'' :: rest) = .ok (.quoted .char '\'' body) :=
    scanChar_eq_ok_iff.mpr ⟨body, rest, h, rfl, rfl⟩
  have hscan : scan '\'' (body ++ '\'' :: rest) = scanChar (body ++ '\'' :: rest) := by
    simp [scan, isBlank, blankRanges]
  simp only [Piece.quoted, List.append_assoc, List.cons_append, List.nil_append]
  rw [hscan, hbody]
  rfl

/-! ### What follows the longest token -/

/-- Where one more character makes a token, that character does not come next. -/
lemma LongestIn.head_ne (h : LongestIn (lexeme ++ rest) lexeme)
    (hlonger : ∃ kind, kind.isQuoted = false ∧ Spells kind (lexeme ++ [c])) :
    rest.head? ≠ some c := by
  rintro hhead
  obtain ⟨more, rfl⟩ := List.head?_eq_some_iff.mp hhead
  obtain ⟨kind, hplain, hspells⟩ := hlonger
  have hle := h kind _ hplain hspells ⟨more, by simp⟩
  simp at hle

/-- The same for all characters of a class. -/
lemma LongestIn.class_eq_false {p : Char → Bool} (h : LongestIn (lexeme ++ rest) lexeme)
    (hlonger : ∀ c, p c → ∃ kind, kind.isQuoted = false ∧ Spells kind (lexeme ++ [c])) :
    ∀ c ∈ rest.head?, p c = false := by
  intro c hc
  by_contra hclass
  exact h.head_ne (hlonger c (Bool.not_eq_false _ ▸ hclass)) hc

lemma LongestIn.isWordPart_eq_false (h : LongestIn (lexeme ++ rest) lexeme)
    (hword : IsWord lexeme) : ∀ c ∈ rest.head?, isWordPart c = false := by
  obtain ⟨c, ds, rfl, hstart, hparts⟩ := hword
  refine h.class_eq_false fun d hd => ?_
  have hlonger : IsWord (c :: ds ++ [d]) := by
    refine ⟨c, ds ++ [d], rfl, hstart, fun e he => ?_⟩
    rcases List.mem_append.mp he with he | he
    · exact hparts e he
    · rwa [List.mem_singleton.mp he]
  exact ⟨_, (wordKind_spells hlonger).2, (wordKind_spells hlonger).1⟩

lemma LongestIn.isDigit_eq_false_of_integer (h : LongestIn (c :: ds ++ rest) (c :: ds))
    (hdigit : c.isDigit) (hdigits : ∀ d ∈ ds, d.isDigit) :
    ∀ d ∈ rest.head?, d.isDigit = false := by
  refine h.class_eq_false fun d hd => ⟨.integer, rfl, .integer hdigit fun e he => ?_⟩
  rcases List.mem_append.mp he with he | he
  · exact hdigits e he
  · rwa [List.mem_singleton.mp he]

/-- No fraction comes after an integer. -/
lemma LongestIn.fraction_eq_nil (h : LongestIn (c :: ds ++ rest) (c :: ds)) (hdigit : c.isDigit)
    (hdigits : ∀ d ∈ ds, d.isDigit) : fraction rest = [] := by
  rcases fraction_eq_nil_or rest with hnil | ⟨d, more, rfl, hd⟩
  · exact hnil
  · have hle := h .float (c :: ds ++ '.' :: d :: []) rfl (.float hdigit hdigits hd (by simp))
      ⟨more, by simp⟩
    simp at hle

lemma LongestIn.isDigit_eq_false_of_float
    (h : LongestIn (c :: ds ++ '.' :: d :: cs ++ rest) (c :: ds ++ '.' :: d :: cs))
    (hdigit : c.isDigit) (hds : ∀ d ∈ ds, d.isDigit) (hdigit' : d.isDigit)
    (hcs : ∀ e ∈ cs, e.isDigit) : ∀ d ∈ rest.head?, d.isDigit = false := by
  refine h.class_eq_false fun e he => ⟨.float, rfl, ?_⟩
  have hmore : ∀ e' ∈ cs ++ [e], e'.isDigit := by
    intro e' he'
    rcases List.mem_append.mp he' with he' | he'
    · exact hcs e' he'
    · rwa [List.mem_singleton.mp he']
  simpa using Spells.float hdigit hds hdigit' hmore

/-- Punctuation of one character does not go on as punctuation of two. -/
lemma LongestIn.pairKind?_eq_none (h : LongestIn ([c] ++ rest) [c]) : pairKind? c rest = none := by
  rw [Option.eq_none_iff_forall_ne_some]
  rintro ⟨d, kind⟩ hpair
  obtain ⟨hhead, hmem⟩ := pairKind?_eq_some_iff.mp hpair
  exact h.head_ne ⟨kind, isQuoted_of_mem_punctuation (.inr ⟨d, hmem⟩), .pair hmem⟩ hhead

/-- The first slash of a comment, read as a token of its own. -/
def OpensComment (text rest : List Char) : Prop :=
  text = ['/'] ∧ (rest.head? = some '/' ∨ rest.head? = some '*')

/-- A token is one piece if it is the longest one. -/
lemma scansAs_of_spells (hspells : Spells kind lexeme)
    (hlongest : kind.isQuoted = false → LongestIn (lexeme ++ rest) lexeme)
    (hcomment : ¬ OpensComment (written kind lexeme) rest) :
    ScansAs (written kind lexeme) rest (some (kind, lexeme)) := by
  cases hspells with
  | @reserved word kind hmem =>
      have hplain := isQuoted_of_mem_reservedWords hmem
      have hword := isWord_of_mem_reservedWords hmem
      rw [written_of_not_isQuoted hplain, ← wordKind_of_mem hmem]
      exact scansAs_word hword ((hlongest hplain).isWordPart_eq_false hword)
  | @ident c cs hstart hparts hfree =>
      have hword : IsWord (c :: cs) := ⟨c, cs, rfl, hstart, hparts⟩
      have hscans := scansAs_word hword ((hlongest rfl).isWordPart_eq_false hword)
      rwa [wordKind_of_forall_notMem hfree] at hscans
  | integer hdigit hdigits =>
      exact scansAs_integer hdigit hdigits
        ((hlongest rfl).isDigit_eq_false_of_integer hdigit hdigits)
        ((hlongest rfl).fraction_eq_nil hdigit hdigits)
  | float hdigit hds hdigit' hcs =>
      exact scansAs_float hdigit hds hdigit' hcs
        ((hlongest rfl).isDigit_eq_false_of_float hdigit hds hdigit' hcs)
  | @single c kind hmem =>
      have hplain := isQuoted_of_mem_punctuation (.inl hmem)
      rw [written_of_not_isQuoted hplain] at hcomment ⊢
      exact scansAs_single hmem (hlongest hplain).pairKind?_eq_none
        (fun ⟨hslash, hhead⟩ => hcomment ⟨by rw [hslash], .inl hhead⟩)
        (fun ⟨hslash, hhead⟩ => hcomment ⟨by rw [hslash], .inr hhead⟩)
  | pair hmem =>
      rw [written_of_not_isQuoted (isQuoted_of_mem_punctuation (.inr ⟨_, hmem⟩))]
      exact scansAs_pair hmem
  | string h => exact scansAs_string h
  | char h => exact scansAs_char h

/-- Words, numbers and punctuation hold no blanks. -/
lemma Spells.isBlank_eq_false (h : Spells kind lexeme) (hplain : kind.isQuoted = false) :
    ∀ c ∈ lexeme, isBlank c = false := by
  cases lexeme with
  | nil => simp
  | cons c cs =>
      rw [List.forall_mem_cons]
      rcases h.cons_cases hplain with
        ⟨hstart, hparts⟩ | ⟨hdigit, hdigits⟩ | ⟨hdigit, ds, d, es, rfl, hds, hd, hes⟩ |
          ⟨rfl, hmem⟩ | ⟨d, rfl, hmem⟩
      · exact ⟨isBlank_of_isWordPart (isWordPart_iff.mpr (.inl hstart)),
          fun d hd => isBlank_of_isWordPart (hparts d hd)⟩
      · exact ⟨isBlank_of_isDigit hdigit, fun d hd => isBlank_of_isDigit (hdigits d hd)⟩
      · refine ⟨isBlank_of_isDigit hdigit, fun e he => ?_⟩
        rcases List.mem_append.mp he with he | he
        · exact isBlank_of_isDigit (hds e he)
        rcases List.mem_cons.mp he with rfl | he
        · decide
        rcases List.mem_cons.mp he with rfl | he
        · exact isBlank_of_isDigit hd
        · exact isBlank_of_isDigit (hes e he)
      · exact ⟨(punctuation_class (.inl hmem)).1, by simp⟩
      · have hall : ∀ p ∈ punctuationPairs, isBlank p.2.1 = false := by decide
        refine ⟨(punctuation_class (.inr ⟨d, hmem⟩)).1, fun e he => ?_⟩
        rw [List.mem_singleton.mp he]
        exact hall _ hmem

/-- No token goes on over a blank. -/
lemma longestIn_of_isBlank (hrest : ∀ c ∈ rest.head?, isBlank c) :
    LongestIn (lexeme ++ rest) lexeme := by
  intro kind other hplain hspells hprefix
  by_contra! hlonger
  cases rest with
  | nil =>
      have hle := hprefix.length_le
      simp only [List.append_nil] at hle
      omega
  | cons c cs =>
      have hfront : lexeme ++ [c] <+: other :=
        List.prefix_of_prefix_length_le (by simp) hprefix (by simpa using hlonger)
      have hc : c ∈ other := hfront.subset (by simp)
      simp [hspells.isBlank_eq_false hplain c hc] at hrest

/-- A token is one piece before a blank and at the end of the text. -/
lemma scansAs_written (h : Spells kind lexeme) (hrest : ∀ c ∈ rest.head?, isBlank c) :
    ScansAs (written kind lexeme) rest (some (kind, lexeme)) := by
  refine scansAs_of_spells h (fun _ => longestIn_of_isBlank hrest) ?_
  rintro ⟨-, hhead | hhead⟩
  · exact absurd (hrest _ hhead) (by decide)
  · exact absurd (hrest _ hhead) (by decide)

/-! ### Comments -/

lemma scansAs_lineComment (h : '\n' ∉ body) :
    ScansAs ('/' :: '/' :: body) ('\n' :: rest) none := by
  refine ⟨'/', .gap ('/' :: body), rfl, rfl, ?_⟩
  have hbody : ∀ c ∈ '/' :: body, decide (c ≠ '\n') = true := by
    intro c hc
    rcases List.mem_cons.mp hc with rfl | hc
    · rfl
    · exact decide_eq_true (ne_of_mem_of_not_mem hc h)
  have htake : ('/' :: body ++ '\n' :: rest).takeWhile (· ≠ '\n') = '/' :: body := by
    rw [List.takeWhile_append_of_pos hbody]
    simp
  have hscan : scan '/' ('/' :: body ++ '\n' :: rest) =
      scanLineComment ('/' :: body ++ '\n' :: rest) := by
    simp [scan, isBlank, blankRanges]
  simp only [Piece.gap]
  rw [hscan, scanLineComment, if_pos (by simp), htake]
  rfl

lemma scansAs_blockComment (h : ClosesFirst body) :
    ScansAs ('/' :: '*' :: body ++ ['*', '/']) rest none := by
  refine ⟨'/', .gap ('*' :: body ++ ['*', '/']), rfl, rfl, ?_⟩
  have hend : throughCommentEnd (body ++ '*' :: '/' :: rest) = some (body ++ ['*', '/']) :=
    throughCommentEnd_eq_some_iff.mpr ⟨body, rest, rfl, rfl, h⟩
  simp only [Piece.gap, List.cons_append, List.append_assoc, List.nil_append]
  have hscan : scan '/' ('*' :: (body ++ '*' :: '/' :: rest)) =
      scanBlockComment (body ++ '*' :: '/' :: rest) := by
    simp [scan, isBlank, blankRanges]
  rw [hscan, scanBlockComment, hend]
  rfl

end Token

/-! ### Whole texts -/

open Token

variable {l : Location}

/-- Reading goes on after a piece. -/
lemma tokensFrom_of_scansAs {text rest : List Char} {token : Option (Kind × List Char)}
    (h : ScansAs text rest token) :
    tokensFrom l (text ++ rest) = (tokensFrom (l.advanceOver text) rest).map
      ((token.map fun (kind, lexeme) => ⟨kind, String.ofList lexeme, l⟩).toList ++ ·) := by
  obtain ⟨c, piece, rfl, rfl, hscan⟩ := h
  rw [List.cons_append, tokensFrom, hscan]
  simp only [List.drop_left]
  rfl

lemma map_nil_append {ε α : Type} (x : Except ε (List α)) : x.map ([] ++ ·) = x := by
  cases x <;> rfl

lemma tokensFrom_of_scansAs_none {text rest : List Char} (h : ScansAs text rest none) :
    tokensFrom l (text ++ rest) = tokensFrom (l.advanceOver text) rest :=
  (tokensFrom_of_scansAs h).trans (map_nil_append _)

/-- A blank is passed over alone as well as together with the blanks after it. -/
lemma tokensFrom_blank {c : Char} {cs : List Char} (h : Text.isBlank c) :
    tokensFrom l (c :: cs) = tokensFrom (l.advance c) cs := by
  have hall : ∀ {l c cs}, Text.isBlank c → tokensFrom l (c :: cs) =
      tokensFrom (l.advanceOver (c :: cs.takeWhile Text.isBlank)) (cs.dropWhile Text.isBlank) := by
    intro l c cs h
    have hsplit := List.takeWhile_append_dropWhile (p := Text.isBlank) (l := cs)
    have hscans : ScansAs (c :: cs.takeWhile Text.isBlank) (cs.dropWhile Text.isBlank) none :=
      ⟨c, .gap (cs.takeWhile Text.isBlank), rfl, rfl, by simp [Piece.gap, scan, h]⟩
    have hpassed := tokensFrom_of_scansAs_none (l := l) hscans
    rwa [List.cons_append, hsplit] at hpassed
  rw [hall h]
  cases cs with
  | nil => rfl
  | cons d ds =>
      by_cases hd : Text.isBlank d
      · rw [hall hd, List.takeWhile_cons_of_pos hd, List.dropWhile_cons_of_pos hd]
        rfl
      · rw [List.takeWhile_cons_of_neg hd, List.dropWhile_cons_of_neg hd]
        rfl

/-- Blanks and comments leave no tokens. -/
lemma tokensFrom_filler {gap rest : List Char} (h : Filler gap) :
    tokensFrom l (gap ++ rest) = tokensFrom (l.advanceOver gap) rest := by
  induction h generalizing l with
  | nil => rfl
  | blank h _ ih => rw [List.cons_append, tokensFrom_blank h, ih, Location.advanceOver_cons]
  | @lineComment body cs h _ ih =>
      calc tokensFrom l ('/' :: '/' :: body ++ '\n' :: cs ++ rest)
          = tokensFrom l ('/' :: '/' :: body ++ '\n' :: (cs ++ rest)) := by simp
        _ = tokensFrom (l.advanceOver ('/' :: '/' :: body)) ('\n' :: (cs ++ rest)) :=
          tokensFrom_of_scansAs_none (scansAs_lineComment h)
        _ = tokensFrom ((l.advanceOver ('/' :: '/' :: body)).advance '\n') (cs ++ rest) :=
          tokensFrom_blank rfl
        _ = tokensFrom (l.advanceOver ('/' :: '/' :: body ++ '\n' :: cs)) rest := by
          rw [ih, Location.advanceOver_append]
          rfl
  | @blockComment body cs h _ ih =>
      rw [List.append_assoc, tokensFrom_of_scansAs_none (scansAs_blockComment h), ih,
        ← Location.advanceOver_append]

lemma Token.Separator.filler_text (s : Separator) : Filler s.text := .blank s.isBlank_first s.filler

/-- Tokens with separators after them are read one by one. -/
lemma tokensFrom_items (items : List Item) :
    ∃ tokens, tokensFrom l (items.flatMap Item.text) = .ok tokens ∧
      tokens.map (fun t => (t.kind, t.lexeme.toList)) = items.map fun i => (i.kind, i.lexeme) := by
  induction items generalizing l with
  | nil => exact ⟨[], by simp [tokensFrom], rfl⟩
  | cons i items ih =>
      have hblank : ∀ c ∈ (i.separator.text ++ items.flatMap Item.text).head?, Text.isBlank c := by
        rintro c ⟨⟩
        exact i.separator.isBlank_first
      have hread := tokensFrom_of_scansAs (l := l) (scansAs_written i.spells hblank)
      rw [tokensFrom_filler i.separator.filler_text] at hread
      obtain ⟨tokens, htokens, hmap⟩ := ih (l := (l.advanceOver _).advanceOver i.separator.text)
      rw [htokens] at hread
      refine ⟨⟨i.kind, String.ofList i.lexeme, l⟩ :: tokens, ?_, ?_⟩
      · rw [List.flatMap_cons, Item.text, List.append_assoc, hread]
        rfl
      · simp [hmap]

/-- **Reading inverts writing**: the text of any tokens, with any separators before, between and
after them, is read as these tokens, and nothing is recorded. -/
theorem tokenize_written (before : Separator) (items : List Item) (log : Log) :
    ∃ tokens,
      tokenize (String.ofList (before.text ++ items.flatMap Item.text)) log = (some tokens, log) ∧
      tokens.map (fun t => (t.kind, t.lexeme.toList)) = items.map fun i => (i.kind, i.lexeme) := by
  obtain ⟨tokens, htokens, hmap⟩ :=
    tokensFrom_items (l := Location.start.advanceOver before.text) items
  have hfrom : tokensFrom .start (before.text ++ items.flatMap Item.text) = .ok tokens :=
    (tokensFrom_filler before.filler_text).trans htokens
  refine ⟨tokens, ?_, hmap⟩
  rw [tokenize, String.toList_ofList, hfrom]

/-- A blank, a line comment with a quote in it, and a block comment in which another one opens. -/
def commentedGap : Separator where
  first := ' '
  more := ['/', '/', '"', '\n', '/', '*', '/', '*', '*', '/']
  isBlank_first := by decide
  filler := @Filler.lineComment ['"'] _ (by decide)
    (@Filler.blockComment ['/', '*'] [] (by unfold ClosesFirst; decide) .nil)

/-- The name `x` and the character literal of a backslash and `q`, each before such a gap. -/
def commentedItems : List Item :=
  have hfree : ∀ p ∈ reservedWords, p.1 ≠ "x" := by decide
  [⟨.ident, ['x'], .ident (by decide) (by simp) fun _ h => hfree _ h rfl, commentedGap⟩,
    ⟨.char, ['\\', 'q'], .char (.escaped (by decide)), commentedGap⟩]

/-- The comments leave no tokens, and the quotes in them open no literal. -/
theorem commentedItems_read :
    String.ofList (commentedGap.text ++ commentedItems.flatMap Item.text)
      = " //\"\n/*/**/x //\"\n/*/**/'\\q' //\"\n/*/**/" ∧
    ∃ tokens, tokenize " //\"\n/*/**/x //\"\n/*/**/'\\q' //\"\n/*/**/" .empty
        = (some tokens, .empty) ∧
      tokens.map (fun t => (t.kind, t.lexeme.toList))
        = [(.ident, ['x']), (.char, ['\\', 'q'])] := by
  have htext : String.ofList (commentedGap.text ++ commentedItems.flatMap Item.text)
      = " //\"\n/*/**/x //\"\n/*/**/'\\q' //\"\n/*/**/" := rfl
  have hread := tokenize_written commentedGap commentedItems .empty
  rw [htext] at hread
  exact ⟨htext, hread⟩

end Fern
