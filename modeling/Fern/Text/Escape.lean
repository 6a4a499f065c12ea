/-!
Escape sequences in the text between the quotes of a literal.

* `escapes`: the seven escapes, each the character after the backslash and the character it stands
  for.
* `decode`: reads a literal's text. A backslash that starts none of the seven stands for itself.
* `encode`: writes any text with the seven escapes; `decode_encode` says that it reads back.
-/

namespace Fern.Text.Escape

/-- The character after the backslash, and the character that the two stand for. -/
def escapes : List (Char × Char) :=
  [('n', '\n'), ('t', '\t'), ('r', '\r'), ('0', '\x00'), ('\\', '\\'), ('"', '"'), ('\'', '\'')]

/-- What a backslash followed by `e` stands for. -/
def value? (e : Char) : Option Char :=
  (escapes.find? (·.1 = e)).map (·.2)

/-- The character that follows the backslash where `c` has an escape. -/
def letter? (c : Char) : Option Char :=
  (escapes.find? (·.2 = c)).map (·.1)

/-- Reads the text of a literal. A backslash goes together with the character after it; if the two
are no escape, or nothing follows, they stand for themselves. -/
def decode : List Char → List Char
  | '\\' :: e :: cs =>
    match value? e with
    | some c => c :: decode cs
    | none => '\\' :: e :: decode cs
  | c :: cs => c :: decode cs
  | [] => []

/-- Writes a text with an escape for each character that has one. -/
def encode : List Char → List Char
  | [] => []
  | c :: cs =>
    match letter? c with
    | some e => '\\' :: e :: encode cs
    | none => c :: encode cs

/-- The two tables are inverse to each other. -/
theorem value?_of_letter? {c e : Char} (h : letter? c = some e) : value? e = some c := by
  simp only [letter?, Option.map_eq_some_iff] at h
  obtain ⟨p, hp, rfl⟩ := h
  have hm := List.mem_of_find?_eq_some hp
  have hc : p.2 = c := by simpa using List.find?_some hp
  subst hc
  revert p
  decide

/-- A backslash has an escape of its own, so none is written bare. -/
theorem ne_backslash_of_letter?_eq_none {c : Char} (h : letter? c = none) : c ≠ '\\' := by
  rintro rfl
  exact absurd h (by decide)

/-- Every text reads back from its written form. -/
theorem decode_encode (cs : List Char) : decode (encode cs) = cs := by
  induction cs with
  | nil => rfl
  | cons c cs ih =>
    unfold encode
    split
    · next e h => simp [decode, value?_of_letter? h, ih]
    · next h =>
      rw [decode, ih]
      rintro e ds rfl -
      exact ne_backslash_of_letter?_eq_none h rfl

end Fern.Text.Escape
