import Mathlib.Tactic
import Fern.Text.Escape
import Fern.Proofs.Lexing.Writing

/-!
What literals in quotes stand for.

* `Part`, `parts`: what decoding takes of a text at a time. `decode_of_parts_eq_append` says that it
  goes over the parts one by one.
* `StringText.lone_notMem_parts`, `StringText.exists_parts_of_quote`: the text of a string literal
  falls into the same pairs of a backslash and a character for the scanner and for decoding.
* `stringLiterals_decode`: **every text can be written as a string literal**, and no quote or
  backslash in a string literal is read in another way than it was scanned.
* `charLiterals_decode`: a character literal stands for one character, unless it holds a backslash
  and a character that has no escape, which stand for themselves.
-/

namespace Fern

namespace Text.Escape

/-! ### Decoding part by part -/

/-- What decoding takes of a text at a time. -/
inductive Part where
  /-- A character that is no backslash. -/
  | plain (c : Char)
  /-- A backslash and the character after it. -/
  | pair (e : Char)
  /-- A backslash at the end of the text. -/
  | lone

/-- The characters of a part. -/
def Part.text : Part → List Char
  | plain c => [c]
  | pair e => ['\\', e]
  | lone => ['\\']

/-- What a part stands for. -/
def Part.value : Part → List Char
  | pair e => ((value? e).map fun c => [c]).getD ['\\', e]
  | part => part.text

/-- The parts that decoding takes of a text, one after the other. -/
def parts : List Char → List Part
  | '\\' :: e :: cs => .pair e :: parts cs
  | ['\\'] => [.lone]
  | c :: cs => .plain c :: parts cs
  | [] => []

variable {c e : Char} {cs before after : List Char}

lemma parts_plain (h : c ≠ '\\') (cs : List Char) : parts (c :: cs) = .plain c :: parts cs :=
  parts.eq_3 c cs (by simp [h]) (by simp [h])

lemma decode_plain (h : c ≠ '\\') (cs : List Char) : decode (c :: cs) = c :: decode cs :=
  decode.eq_2 c cs (by simp [h])

lemma decode_pair (e : Char) (cs : List Char) :
    decode ('\\' :: e :: cs) = (Part.pair e).value ++ decode cs := by
  rw [decode, Part.value]
  cases value? e <;> rfl

/-- Nothing of a text is left out. -/
lemma flatMap_text_parts (cs : List Char) : (parts cs).flatMap Part.text = cs := by
  fun_induction parts cs with
  | case1 e cs ih => simp [Part.text, ih]
  | case2 => rfl
  | case3 c cs _ _ ih => simp [Part.text, ih]
  | case4 => rfl

/-- Decoding puts together what the parts stand for. -/
lemma decode_eq_flatMap_parts (cs : List Char) : decode cs = (parts cs).flatMap Part.value := by
  fun_induction parts cs with
  | case1 e cs ih => rw [decode_pair, ih, List.flatMap_cons]
  | case2 => rfl
  | case3 c cs hpair hlone ih =>
      have hc : c ≠ '\\' := by
        rintro rfl
        cases cs with
        | nil => exact hlone rfl rfl
        | cons e cs => exact hpair e cs rfl rfl
      rw [decode_plain hc, ih]
      rfl
  | case4 => rfl

/-- What is left of a text after some of its parts has the other parts. -/
lemma parts_flatMap_text {us vs : List Part} (h : parts cs = us ++ vs) :
    parts (vs.flatMap Part.text) = vs := by
  induction us generalizing cs with
  | nil => rw [← show parts cs = vs from h, flatMap_text_parts]
  | cons u us ih =>
      fun_cases parts cs with
      | case1 e cs => exact ih (List.cons.inj (parts.eq_1 e cs ▸ h)).2
      | case2 =>
          have hnone : parts [] = us ++ vs := (List.cons.inj h).2
          exact ih hnone
      | case3 c cs hpair hlone => exact ih (List.cons.inj (parts.eq_3 c cs hpair hlone ▸ h)).2
      | case4 => cases h

/-- **Part by part.** After some parts of a text have been read, what is decoded is what they stand
for, and what is left of the text remains to be decoded. -/
lemma decode_of_parts_eq_append {us vs : List Part} (h : parts cs = us ++ vs) :
    decode cs = us.flatMap Part.value ++ decode (vs.flatMap Part.text) := by
  rw [decode_eq_flatMap_parts, decode_eq_flatMap_parts, h, parts_flatMap_text h,
    List.flatMap_append]

end Text.Escape

namespace Token

open Text.Escape

variable {c : Char} {cs before after : List Char}

/-! ### Texts of literals -/

/-- Characters that a string literal cannot hold bare have escapes, which it can hold. -/
lemma stringText_encode (cs : List Char) : StringText (encode cs) := by
  induction cs with
  | nil => exact .nil
  | cons c cs ih =>
      rw [encode]
      cases h : letter? c with
      | some e =>
          have hnewline : e ≠ '\n' := by
            rintro rfl
            exact absurd (value?_of_letter? h) (by simp [value?, escapes])
          exact .escaped hnewline ih
      | none =>
          have hbare : ∀ d, (letter? d).isSome → c ≠ d := by
            rintro d hd rfl
            simp [h] at hd
          exact .plain (hbare _ rfl) (hbare _ rfl) (hbare _ rfl) ih

/-- Every backslash in a string literal is paired with a character after it. -/
lemma StringText.lone_notMem_parts (h : StringText cs) : Part.lone ∉ parts cs := by
  induction h with
  | nil => simp [parts]
  | plain _ _ hescape _ ih => simpa [parts_plain hescape] using ih
  | escaped _ _ ih => simpa [parts] using ih

/-- Every quote in a string literal is paired with the backslash before it. -/
lemma StringText.exists_parts_of_quote (h : StringText cs) (hcs : cs = before ++ '"' :: after) :
    ∃ us vs, parts cs = us ++ .pair '"' :: vs ∧ before = us.flatMap Part.text ++ ['\\'] ∧
      after = vs.flatMap Part.text := by
  induction h generalizing before with
  | nil => simp at hcs
  | @plain c cs hquote _ hescape _ ih =>
      cases before with
      | nil => exact absurd (List.cons.inj hcs).1 hquote
      | cons d before =>
          rw [List.cons_append, List.cons.injEq] at hcs
          obtain ⟨rfl, hcs⟩ := hcs
          obtain ⟨us, vs, hparts, rfl, rfl⟩ := ih hcs
          exact ⟨.plain c :: us, vs, by rw [parts_plain hescape, hparts]; rfl, rfl, rfl⟩
  | @escaped e cs _ _ ih =>
      match before, hcs with
      | [], hcs => exact absurd (List.cons.inj hcs).1 (by decide)
      | [d], hcs =>
          -- the quote is the character of this pair
          simp only [List.cons_append, List.nil_append, List.cons.injEq] at hcs
          obtain ⟨rfl, rfl, rfl⟩ := hcs
          exact ⟨[], parts cs, rfl, rfl, (flatMap_text_parts cs).symm⟩
      | d :: e' :: before, hcs =>
          simp only [List.cons_append, List.cons.injEq] at hcs
          obtain ⟨rfl, rfl, hcs⟩ := hcs
          obtain ⟨us, vs, hparts, rfl, rfl⟩ := ih hcs
          exact ⟨.pair e :: us, vs, by rw [parts, hparts]; rfl, rfl, rfl⟩

/-- A character literal stands for one character, or for two that are no escape. -/
lemma CharText.decode_cases (h : CharText cs) :
    (∃ c, decode cs = [c]) ∨ ∃ e, value? e = none ∧ cs = ['\\', e] ∧ decode cs = ['\\', e] := by
  cases h with
  | @plain c _ _ hescape => exact .inl ⟨c, decode_plain hescape []⟩
  | @escaped e _ =>
      cases he : value? e with
      | some c => exact .inl ⟨c, by rw [decode_pair, Part.value, he]; rfl⟩
      | none => exact .inr ⟨e, he, rfl, by rw [decode_pair, Part.value, he]; rfl⟩

/-- The lexeme of a literal in quotes is its text. -/
lemma Spells.text_of_isQuoted {kind : Kind} (h : Spells kind cs) (hquoted : kind.isQuoted) :
    kind = .string ∧ StringText cs ∨ kind = .char ∧ CharText cs := by
  cases h with
  | string h => exact .inl ⟨rfl, h⟩
  | char h => exact .inr ⟨rfl, h⟩
  | reserved h => simp [isQuoted_of_mem_reservedWords h] at hquoted
  | single h => simp [isQuoted_of_mem_punctuation (.inl h)] at hquoted
  | pair h => simp [isQuoted_of_mem_punctuation (.inr ⟨_, h⟩)] at hquoted
  | _ => cases hquoted

end Token

/-! ### Literals in a source text -/

open Token Text.Escape

variable {source : String} {log : Log} {tokens : List Token} {t : Token}

/-- A text that is one piece is one token. -/
lemma tokenize_of_scansAs {text lexeme : List Char} {kind : Token.Kind}
    (h : ScansAs text [] (some (kind, lexeme))) (log : Log) :
    tokenize (String.ofList text) log = (some [⟨kind, String.ofList lexeme, .start⟩], log) := by
  refine tokenize_of_ok ?_ log
  have hread := tokensFrom_of_scansAs (l := .start) h
  rw [List.append_nil, tokensFrom] at hread
  rw [String.toList_ofList, hread]
  rfl

/-- The tokens of a text have lexemes of their kinds. -/
lemma spells_of_tokenize (h : (tokenize source log).1 = some tokens) (ht : t ∈ tokens) :
    Spells t.kind t.lexeme.toList := by
  obtain ⟨ss, -, rfl, hall⟩ := exists_segments_of_tokensFrom [] (tokensFrom_of_tokenize h)
  exact spells_of_mem_tokensAfter hall ht

/-- The string literal that stands for a text: the text between quotes, with an escape for each
character that has one. -/
def stringLiteral (s : String) : String := String.ofList ('"' :: encode s.toList ++ ['"'])

/-- **String literals.** The string literal for a text is one token, and its lexeme decodes to this
text. In every string literal of a source text, decoding finds a character after each backslash that
it does not take as the character of an escape, and takes each quote as the character of an escape:
the parts before it are the text up to the backslash in front of it. -/
theorem stringLiterals_decode :
    (∀ (s : String) (log : Log), ∃ t, tokenize (stringLiteral s) log = (some [t], log) ∧
      t.kind = .string ∧ String.ofList (decode t.lexeme.toList) = s) ∧
    ∀ (source : String) (log : Log) (tokens : List Token),
      (tokenize source log).1 = some tokens → ∀ t ∈ tokens, t.kind = .string →
        decode t.lexeme.toList = (parts t.lexeme.toList).flatMap Part.value ∧
        Part.lone ∉ parts t.lexeme.toList ∧
        ∀ before after, t.lexeme.toList = before ++ '"' :: after →
          ∃ us vs, parts t.lexeme.toList = us ++ .pair '"' :: vs ∧
            before = us.flatMap Part.text ++ ['\\'] ∧ after = vs.flatMap Part.text ∧
            decode t.lexeme.toList = us.flatMap Part.value ++ '"' :: decode after := by
  refine ⟨fun s log => ⟨⟨.string, String.ofList (encode s.toList), .start⟩,
    tokenize_of_scansAs (scansAs_string (stringText_encode _)) log, rfl, ?_⟩, ?_⟩
  · rw [String.toList_ofList, decode_encode, String.ofList_toList]
  · intro source log tokens h t ht hkind
    have hspells := spells_of_tokenize h ht
    obtain ⟨-, htext⟩ | ⟨hchar, -⟩ := hspells.text_of_isQuoted (by rw [hkind]; rfl)
    · refine ⟨decode_eq_flatMap_parts _, htext.lone_notMem_parts, fun before after hcs => ?_⟩
      obtain ⟨us, vs, hparts, hbefore, rfl⟩ := htext.exists_parts_of_quote hcs
      refine ⟨us, vs, hparts, hbefore, rfl, ?_⟩
      rw [decode_of_parts_eq_append hparts, List.flatMap_cons]
      rfl
    · cases hkind.symm.trans hchar

/-- Two backslashes and an escaped quote: the quote goes with the third backslash. -/
theorem stringLiterals_decode_backslashes :
    (tokenize "\"\\\\\\\"\"" .empty).1 = some [⟨.string, "\\\\\\\"", ⟨0, 0⟩⟩] ∧
    Part.lone ∉ parts "\\\\\\\"".toList ∧
    ∃ us vs, parts "\\\\\\\"".toList = us ++ .pair '"' :: vs ∧
      ['\\', '\\', '\\'] = us.flatMap Part.text ++ ['\\'] := by
  have htokens : (tokenize "\"\\\\\\\"\"" .empty).1
      = some [⟨.string, "\\\\\\\"", ⟨0, 0⟩⟩] := by
    decide +kernel
  obtain ⟨-, hlone, hquotes⟩ :=
    stringLiterals_decode.2 _ _ _ htokens _ (List.mem_singleton_self _) rfl
  obtain ⟨us, vs, hparts, hbefore, -⟩ := hquotes ['\\', '\\', '\\'] [] rfl
  exact ⟨htokens, hlone, us, vs, hparts, hbefore⟩

example : stringLiteral "\n\t\r\x00\\\"\'n" = "\"\\n\\t\\r\\0\\\\\\\"\\'n\"" := by decide

/-- A backslash and any character without an escape, except a newline, can stand in a character
literal, and it decodes to these two. -/
theorem charLiteral_of_value?_eq_none {e : Char} (hnewline : e ≠ '\n') (he : value? e = none)
    (log : Log) : ∃ t, tokenize (String.ofList ['\'', '\\', e, '\'']) log = (some [t], log) ∧
      t.kind = .char ∧ decode t.lexeme.toList = ['\\', e] := by
  refine ⟨⟨.char, String.ofList ['\\', e], .start⟩,
    tokenize_of_scansAs (scansAs_char (.escaped hnewline)) log, rfl, ?_⟩
  rw [String.toList_ofList, decode_pair, Part.value, he]
  rfl

/-- **Character literals.** A character literal of a source text decodes to one character exactly if
it does not hold a backslash and a character without an escape. -/
theorem charLiterals_decode (source : String) (log : Log) (tokens : List Token)
    (h : (tokenize source log).1 = some tokens) (t : Token) (ht : t ∈ tokens)
    (hkind : t.kind = .char) :
    (∃ c, decode t.lexeme.toList = [c]) ↔ ∀ e, value? e = none → t.lexeme.toList ≠ ['\\', e] := by
  have hquoted : t.kind.isQuoted := by rw [hkind]; rfl
  obtain ⟨hstring, -⟩ | ⟨-, htext⟩ := (spells_of_tokenize h ht).text_of_isQuoted hquoted
  · cases hkind.symm.trans hstring
  obtain ⟨c, hone⟩ | ⟨e, he, hlexeme, htwo⟩ := htext.decode_cases
  · refine iff_of_true ⟨c, hone⟩ fun e he hlexeme => ?_
    rw [hlexeme, decode_pair, Part.value, he] at hone
    cases hone
  · refine iff_of_false (fun ⟨c, hone⟩ => ?_) fun hno => hno e he hlexeme
    rw [htwo] at hone
    cases hone

/-- A newline by its escape is one character, and a backslash and `q` are not. -/
theorem charLiterals_decode_escapes :
    (tokenize "'\\n''\\q'" .empty).1 = some [⟨.char, "\\n", ⟨0, 0⟩⟩, ⟨.char, "\\q", ⟨0, 4⟩⟩] ∧
    (∃ c, decode "\\n".toList = [c]) ∧ ¬ ∃ c, decode "\\q".toList = [c] := by
  have htokens : (tokenize "'\\n''\\q'" .empty).1
      = some [⟨.char, "\\n", ⟨0, 0⟩⟩, ⟨.char, "\\q", ⟨0, 4⟩⟩] := by
    decide +kernel
  refine ⟨htokens,
    (charLiterals_decode _ _ _ htokens ⟨.char, "\\n", ⟨0, 0⟩⟩ (by simp) rfl).mpr ?_,
    fun hone => (charLiterals_decode _ _ _ htokens ⟨.char, "\\q", ⟨0, 4⟩⟩ (by simp) rfl).mp hone
      'q' rfl rfl⟩
  rintro e he ⟨⟩
  cases he

/-- Not every character literal decodes to one character. -/
theorem charLiteral_may_decode_to_two :
    ¬ ∀ (source : String) (log : Log) (tokens : List Token),
      (tokenize source log).1 = some tokens → ∀ t ∈ tokens, t.kind = .char →
        ∃ c, decode t.lexeme.toList = [c] := by
  intro h
  obtain ⟨t, htokens, hkind, htwo⟩ :=
    charLiteral_of_value?_eq_none (e := 'q') (by decide) rfl .empty
  obtain ⟨c, hone⟩ := h _ _ _ (congrArg Prod.fst htokens) t (List.mem_singleton_self t) hkind
  exact absurd (List.cons.inj (htwo.symm.trans hone)).2 (List.cons_ne_nil _ _)

end Fern
