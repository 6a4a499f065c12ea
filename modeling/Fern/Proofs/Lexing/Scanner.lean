import Mathlib.Tactic
import Fern.Proofs.Lexing.Spelling

/-!
The parts of the scanner, each with the texts on which it succeeds.

* `ClosesFirst`: a text that a block comment can hold.
* `throughCommentEnd_eq_some_iff`, `stringBody_eq_ok_iff`, `scanChar_eq_ok_iff`: block comments and
  literals end at the first place at which they can.
* `wordKind_of_mem`, `wordKind_of_forall_notMem`, `wordKind_spells`: words have the kinds that they
  spell.
* `scanNumber_fraction`, `scanNumber_of_fraction_eq_nil`: numbers with and without a fraction.
* `lookup_punctuation_eq_some_iff`, `pairKind?_eq_some_iff`: punctuation is found in its tables.
-/

namespace Fern.Token

variable {c : Char} {cs rest body : List Char} {kind : Kind}

/-! ### Comments -/

/-- A text holds no `*/`, not even with the first character of the one after it. -/
def ClosesFirst (body : List Char) : Prop := ¬ ['*', '/'] <:+: body ++ ['*']

lemma closesFirst_nil : ClosesFirst [] := by
  unfold ClosesFirst
  decide

lemma closesFirst_cons_iff :
    ClosesFirst (c :: cs) ↔ ¬ (c = '*' ∧ cs.head? = some '/') ∧ ClosesFirst cs := by
  simp only [ClosesFirst, List.cons_append, List.infix_cons_iff, not_or, List.cons_prefix_cons]
  refine and_congr_left fun _ => not_congr ?_
  cases cs with
  | nil => simp [eq_comm]
  | cons d cs => simp [eq_comm]

lemma throughCommentEnd_cons (h : ¬ (c = '*' ∧ cs.head? = some '/')) :
    throughCommentEnd (c :: cs) = (throughCommentEnd cs).map (c :: ·) := by
  refine throughCommentEnd.eq_2 c cs ?_
  rintro rest rfl rfl
  exact h ⟨rfl, rfl⟩

/-- A block comment goes up to the first `*/`. -/
lemma throughCommentEnd_eq_some_iff {text : List Char} :
    throughCommentEnd cs = some text ↔
      ∃ body rest, cs = body ++ '*' :: '/' :: rest ∧ text = body ++ ['*', '/'] ∧
        ClosesFirst body := by
  induction cs generalizing text with
  | nil => simp [throughCommentEnd]
  | cons c cs ih =>
      by_cases h : c = '*' ∧ cs.head? = some '/'
      · obtain ⟨rfl, hhead⟩ := h
        obtain ⟨rest, rfl⟩ := List.head?_eq_some_iff.mp hhead
        constructor
        · intro htext
          cases htext
          exact ⟨[], rest, rfl, rfl, closesFirst_nil⟩
        · rintro ⟨body, rest', heq, rfl, hbody⟩
          cases body with
          | nil => rfl
          | cons d body =>
              obtain ⟨rfl, htail⟩ := List.cons.inj heq
              refine absurd ⟨rfl, ?_⟩ (closesFirst_cons_iff.mp hbody).1
              cases body with
              | nil => simp at htail
              | cons e body => rw [(List.cons.inj htail).1]; rfl
      · rw [throughCommentEnd_cons h, Option.map_eq_some_iff]
        constructor
        · rintro ⟨text, htext, rfl⟩
          obtain ⟨body, rest, rfl, rfl, hbody⟩ := ih.mp htext
          refine ⟨c :: body, rest, rfl, rfl,
            closesFirst_cons_iff.mpr ⟨fun hc => h ⟨hc.1, ?_⟩, hbody⟩⟩
          obtain ⟨ds, rfl⟩ := List.head?_eq_some_iff.mp hc.2
          rfl
        · rintro ⟨body, rest, heq, rfl, hbody⟩
          cases body with
          | nil =>
              obtain ⟨rfl, rfl⟩ := List.cons.inj heq
              exact absurd ⟨rfl, rfl⟩ h
          | cons d body =>
              obtain ⟨rfl, rfl⟩ := List.cons.inj heq
              exact ⟨_, ih.mpr ⟨body, rest, rfl, rfl, (closesFirst_cons_iff.mp hbody).2⟩, rfl⟩

/-! ### Literals -/

lemma map_eq_ok_iff {α β ε : Type} {f : α → β} {x : Except ε α} {b : β} :
    x.map f = .ok b ↔ ∃ a, x = .ok a ∧ f a = b := by
  cases x with
  | error e => simp [Except.map]
  | ok a => simp [Except.map]

/-- A backslash is the last character of a text, or another one follows it. -/
lemma ne_backslash (hlast : c = '\\' → cs = [] → False)
    (hescape : ∀ e ds, c = '\\' → cs = e :: ds → False) : c ≠ '\\' := by
  rintro rfl
  cases cs with
  | nil => exact hlast rfl rfl
  | cons e cs => exact hescape e cs rfl rfl

/-- The text of a string literal is passed over. -/
lemma stringBody_append (h : StringText body) :
    stringBody (body ++ cs) = (stringBody cs).map (body ++ ·) := by
  induction h with
  | nil => cases hcs : stringBody cs <;> exact hcs
  | @plain c body hquote hnewline hescape _ ih =>
      rw [List.cons_append, stringBody.eq_6 c _ hquote hnewline (by simp [hescape])
        (by simp [hescape]) (by simp [hescape]), ih]
      cases stringBody cs <;> rfl
  | @escaped c body hnewline _ ih =>
      rw [List.cons_append, List.cons_append, stringBody.eq_4 c _ hnewline, ih]
      cases stringBody cs <;> rfl

/-- A string literal goes up to the first quote that no backslash precedes. -/
lemma stringBody_eq_ok_iff :
    stringBody cs = .ok body ↔ StringText body ∧ ∃ rest, cs = body ++ '"' :: rest := by
  constructor
  · intro h
    fun_induction stringBody cs generalizing body with
    | case1 rest =>
        cases h
        exact ⟨.nil, rest, rfl⟩
    | case4 e cs hnewline ih =>
        obtain ⟨body, hbody, rfl⟩ := map_eq_ok_iff.mp h
        obtain ⟨htext, rest, rfl⟩ := ih hbody
        exact ⟨.escaped hnewline htext, rest, rfl⟩
    | case6 c cs hquote hnewline _ hescape hlast ih =>
        obtain ⟨body, hbody, rfl⟩ := map_eq_ok_iff.mp h
        obtain ⟨htext, rest, rfl⟩ := ih hbody
        exact ⟨.plain hquote hnewline (ne_backslash hlast hescape) htext, rest, rfl⟩
    | case2 => cases h
    | case3 => cases h
    | case5 => cases h
    | case7 => cases h
  · rintro ⟨htext, rest, rfl⟩
    rw [stringBody_append htext]
    simp [stringBody, Except.map]

lemma closeChar_eq_ok_iff {p : Piece} :
    closeChar body cs = .ok p ↔ ∃ rest, cs = '\'' :: rest ∧ p = .quoted .char '\'' body := by
  unfold closeChar
  split <;> simp_all [eq_comm]

/-- A character literal goes up to the quote after its only character. -/
lemma scanChar_eq_ok_iff {p : Piece} :
    scanChar cs = .ok p ↔
      ∃ body rest, CharText body ∧ cs = body ++ '\'' :: rest ∧ p = .quoted .char '\'' body := by
  constructor
  · intro h
    unfold scanChar at h
    split at h
    iterate 5 cases h
    · next e cs hnewline =>
      obtain ⟨rest, rfl, rfl⟩ := closeChar_eq_ok_iff.mp h
      exact ⟨_, rest, .escaped hnewline, rfl, rfl⟩
    · next c cs hquote hnewline hlast _ hescape =>
      obtain ⟨rest, rfl, rfl⟩ := closeChar_eq_ok_iff.mp h
      exact ⟨_, rest, .plain hquote hnewline fun hc => hescape _ _ hc rfl, rfl, rfl⟩
  · rintro ⟨body, rest, hbody, rfl, rfl⟩
    cases hbody with
    | @plain c hquote hnewline hescape =>
        exact (scanChar.eq_7 c _ hquote hnewline (by simp [hescape]) (by simp [hescape])
          (by simp [hescape])).trans (closeChar_eq_ok_iff.mpr ⟨rest, rfl, rfl⟩)
    | @escaped c hnewline =>
        exact (scanChar.eq_6 c _ hnewline).trans (closeChar_eq_ok_iff.mpr ⟨rest, rfl, rfl⟩)

/-! ### Words -/

lemma wordKind_of_mem {word : String} (h : (word, kind) ∈ reservedWords) :
    wordKind word.toList = kind := by
  have hall : ∀ p ∈ reservedWords, wordKind p.1.toList = p.2 := by decide
  exact hall (word, kind) h

lemma wordKind_of_forall_notMem (h : ∀ kind, (String.ofList cs, kind) ∉ reservedWords) :
    wordKind cs = .ident := by
  have hnone : reservedWords.lookup (String.ofList cs) = none := by
    rw [List.lookup_eq_none_iff]
    intro p hp
    rw [bne_iff_ne]
    rintro heq
    exact h p.2 (heq ▸ hp)
  rw [wordKind, hnone]
  rfl

/-- A word is a token of the kind that its letters give it. -/
lemma wordKind_spells (h : IsWord cs) :
    Spells (wordKind cs) cs ∧ (wordKind cs).isQuoted = false := by
  by_cases hfree : ∀ kind, (String.ofList cs, kind) ∉ reservedWords
  · obtain ⟨c, ds, rfl, hstart, hparts⟩ := h
    rw [wordKind_of_forall_notMem hfree]
    exact ⟨.ident hstart hparts hfree, rfl⟩
  · push Not at hfree
    obtain ⟨kind, hmem⟩ := hfree
    have hkind := wordKind_of_mem hmem
    rw [String.toList_ofList] at hkind
    rw [hkind]
    exact ⟨by simpa using Spells.reserved hmem, isQuoted_of_mem_reservedWords hmem⟩

/-! ### Numbers -/

lemma fraction_eq_nil_or (cs : List Char) :
    fraction cs = [] ∨ ∃ d rest, cs = '.' :: d :: rest ∧ d.isDigit := by
  unfold fraction
  split
  · split
    · next h => exact .inr ⟨_, _, rfl, h⟩
    · exact .inl rfl
  · exact .inl rfl

/-- Digits, a point and a digit begin a number with a fraction. -/
lemma scanNumber_fraction {ds : List Char} {d : Char} (hdigits : ∀ e ∈ ds, e.isDigit)
    (hdigit : d.isDigit) :
    scanNumber c (ds ++ '.' :: d :: rest) =
      .plain .float c (ds ++ '.' :: d :: rest.takeWhile Char.isDigit) := by
  have htake : (ds ++ '.' :: d :: rest).takeWhile Char.isDigit = ds := by
    simp [List.takeWhile_append_of_pos hdigits, Char.isDigit]
  have hdrop : (ds ++ '.' :: d :: rest).dropWhile Char.isDigit = '.' :: d :: rest := by
    simp [List.dropWhile_append_of_pos hdigits, Char.isDigit]
  simp [scanNumber, htake, hdrop, fraction, hdigit]

/-- Without a fraction the number is its digits. -/
lemma scanNumber_of_fraction_eq_nil (h : fraction (cs.dropWhile Char.isDigit) = []) :
    scanNumber c cs = .plain .integer c (cs.takeWhile Char.isDigit) := by
  simp [scanNumber, h]

/-! ### Punctuation -/

lemma lookup_punctuation_eq_some_iff :
    punctuation.lookup c = some kind ↔ (c, kind) ∈ punctuation := by
  constructor
  · intro h
    obtain ⟨_, _, heq, _⟩ := List.lookup_eq_some_iff.mp h
    simp [heq]
  · have hall : ∀ p ∈ punctuation, punctuation.lookup p.1 = some p.2 := by decide
    exact hall (c, kind)

lemma pairKind?_eq_some_iff {d : Char} :
    pairKind? c cs = some (d, kind) ↔ cs.head? = some d ∧ (c, d, kind) ∈ punctuationPairs := by
  cases cs with
  | nil => simp [pairKind?]
  | cons e cs =>
      simp only [pairKind?, Option.map_eq_some_iff, List.head?_cons, Option.some.injEq]
      constructor
      · rintro ⟨p, hp, heq⟩
        obtain ⟨rfl, rfl⟩ := Prod.mk.inj heq
        obtain ⟨rfl, rfl⟩ : p.1 = c ∧ p.2.1 = e := by simpa using List.find?_some hp
        exact ⟨rfl, List.mem_of_find?_eq_some hp⟩
      · rintro ⟨rfl, hmem⟩
        have hall : ∀ p ∈ punctuationPairs,
            punctuationPairs.find? (fun q => q.1 = p.1 && q.2.1 = p.2.1) = some p := by
          decide
        exact ⟨_, hall _ hmem, rfl⟩

end Fern.Token
