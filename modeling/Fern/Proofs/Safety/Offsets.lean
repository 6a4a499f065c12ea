import Mathlib.Tactic
import Fern.Program.Tree
import Fern.Text.Cursor

/-!
Texts by the byte, with a check at every access.

* `Fault`: what an unchecked access would stumble over.
* `Text.utf8Length`, `Text.cut?`: the length of a text in bytes, and the text cut in two at an
  offset. `Text.cut?_eq_some_iff` says that it can be cut between any two characters, and nowhere
  else.
* `Text.offsetOf?`: where a pattern is first found.
* `Guarded.advance`: a reading position moved on. `Guarded.advance_eq_ok` gives the position after
  some characters, for positions and places that are small enough.
-/

namespace Fern

/-- What an access without a check would stumble over. -/
inductive Fault where
  /-- A text is cut inside a character, after its end, or at what is no offset. -/
  | cut (offset : ℕ)
  /-- No expression is stored under a number. -/
  | missing (id : NodeId)
  /-- A difference would be less than zero. -/
  | underflow
  /-- A line or a column is too large to be counted. -/
  | overflow
  /-- A loop makes no progress. -/
  | stuck
deriving Repr, DecidableEq

namespace Text

variable {as bs cs : List Char} {n : ℕ}

/-- The number of bytes that a text takes. -/
def utf8Length (cs : List Char) : ℕ := (cs.map Char.utf8Size).sum

@[simp] lemma utf8Length_nil : utf8Length [] = 0 := rfl

@[simp] lemma utf8Length_cons (c : Char) (cs : List Char) :
    utf8Length (c :: cs) = c.utf8Size + utf8Length cs := rfl

@[simp] lemma utf8Length_append (as bs : List Char) :
    utf8Length (as ++ bs) = utf8Length as + utf8Length bs := by
  simp [utf8Length]

/-- A character takes four bytes at most. -/
lemma utf8Length_le (cs : List Char) : utf8Length cs ≤ 4 * cs.length := by
  induction cs with
  | nil => simp
  | cons c cs ih =>
      have hsize := c.utf8Size_le_four
      rw [utf8Length_cons, List.length_cons]
      omega

/-! ### Cuts -/

/-- A text in two parts, the first of which takes `n` bytes. None if a part would begin inside a
character. -/
def cut? : ℕ → List Char → Option (List Char × List Char)
  | 0, cs => some ([], cs)
  | _ + 1, [] => none
  | n + 1, c :: cs =>
    if c.utf8Size ≤ n + 1 then (cut? (n + 1 - c.utf8Size) cs).map fun p => (c :: p.1, p.2) else none

lemma cut?_utf8Length_append (as bs : List Char) :
    cut? (utf8Length as) (as ++ bs) = some (as, bs) := by
  induction as with
  | nil => rw [utf8Length_nil, cut?]; rfl
  | cons a as ih =>
      obtain ⟨n, hn⟩ := Nat.exists_eq_add_of_lt a.utf8Size_pos
      rw [Nat.zero_add] at hn
      have hrest : n + utf8Length as + 1 - a.utf8Size = utf8Length as := by omega
      rw [utf8Length_cons, show a.utf8Size + utf8Length as = n + utf8Length as + 1 by omega,
        List.cons_append, cut?, if_pos (by omega), hrest, ih]
      rfl

/-- **Cuts.** A text can be cut at the offset of the end of a front of it, and nowhere else. -/
lemma cut?_eq_some_iff : cut? n cs = some (as, bs) ↔ cs = as ++ bs ∧ n = utf8Length as := by
  constructor
  · intro h
    fun_induction cut? n cs generalizing as with
    | case1 cs =>
        cases h
        exact ⟨rfl, rfl⟩
    | case2 => cases h
    | case3 n c cs hsize ih =>
        obtain ⟨⟨as', bs'⟩, hcut, heq⟩ := Option.map_eq_some_iff.mp h
        obtain ⟨rfl, rfl⟩ := Prod.mk.inj heq
        obtain ⟨rfl, hn⟩ := ih hcut
        refine ⟨rfl, ?_⟩
        dsimp only at hn ⊢
        rw [utf8Length_cons]
        omega
    | case4 => cases h
  · rintro ⟨rfl, rfl⟩
    exact cut?_utf8Length_append as bs

example : cut? 1 ['é'] = none := by decide

/-- Where a pattern is first found in a text. -/
def offsetOf? (pattern : List Char) : List Char → Option ℕ
  | [] => none
  | c :: cs =>
    if pattern <+: c :: cs then some 0 else (offsetOf? pattern cs).map (c.utf8Size + ·)

/-! ### Positions -/

/-- Stepping over the bytes of some characters leads behind them. -/
lemma Cursor.advanceOver_utf8Length (k : Cursor) (hrest : k.rest = as ++ bs) :
    k.advanceOver (utf8Length as) k.rest
      = some ⟨bs, k.offset + utf8Length as, k.location.advanceOver as⟩ := by
  induction as generalizing k with
  | nil =>
      obtain ⟨rest, offset, location⟩ := k
      obtain rfl : rest = bs := hrest
      rw [utf8Length_nil, Cursor.advanceOver]
      rfl
  | cons a as ih =>
      have hpos := a.utf8Size_pos
      rw [hrest, List.cons_append, utf8Length_cons, Cursor.advanceOver, if_pos (by omega),
        Nat.add_sub_cancel_left]
      · have hothers := ih (Cursor.step a (as ++ bs) k) rfl
        rw [Cursor.step] at hothers ⊢
        simpa [Nat.add_assoc] using hothers
      · omega

end Text

namespace Location

/-- Lines and columns are counted in words of 32 bits. -/
def wordBound : ℕ := 2 ^ 32

/-- Whether the line and the column can be counted. -/
def fits (l : Location) : Bool := l.line < wordBound && l.column < wordBound

/-- With every character either the line or the column grows by one. -/
lemma line_add_column_advanceOver_le (l : Location) (cs : List Char) :
    (l.advanceOver cs).line + (l.advanceOver cs).column ≤ l.line + l.column + cs.length := by
  induction cs generalizing l with
  | nil => simp
  | cons c cs ih =>
      have hothers := ih (l.advance c)
      have hfirst : (l.advance c).line + (l.advance c).column ≤ l.line + l.column + 1 := by
        unfold advance
        split <;> simp only <;> omega
      rw [advanceOver_cons, List.length_cons]
      omega

/-- Where few characters have been read, the place can be counted. -/
lemma fits_advanceOver {l : Location} {cs : List Char}
    (h : l.line + l.column + cs.length < wordBound) : (l.advanceOver cs).fits = true := by
  have hle := l.line_add_column_advanceOver_le cs
  simp only [fits, Bool.and_eq_true, decide_eq_true_eq]
  omega

end Location

namespace Guarded

open Text

/-- A text from an offset on. -/
def sliceFrom (n : ℕ) (cs : List Char) : Except Fault (List Char) :=
  match cut? n cs with
  | some (_, rest) => .ok rest
  | none => .error (.cut n)

/-- A text up to an offset. -/
def sliceUpTo (n : ℕ) (cs : List Char) : Except Fault (List Char) :=
  match cut? n cs with
  | some (front, _) => .ok front
  | none => .error (.cut n)

/-- A difference, if it is not less than zero. -/
def sub (m n : ℕ) : Except Fault ℕ := if n ≤ m then .ok (m - n) else .error .underflow

/-- The position `n` bytes further on, or at the end of the text if that comes first. It has to lie
between two characters, and the places of all characters on the way have to be countable. -/
def advance (k : Cursor) (n : ℕ) : Except Fault Cursor :=
  match k.advance? n with
  | none => .error (.cut (k.offset + n))
  | some next =>
    let passed := k.rest.take (k.rest.length - next.rest.length)
    if passed.inits.all fun cs => (k.location.advanceOver cs).fits then .ok next
    else .error .overflow

/-- A computation without a fault is followed by the next. -/
@[simp] lemma ok_bind {α β : Type} (a : α) (f : α → Except Fault β) :
    (Except.ok a >>= f) = f a := rfl

variable {as bs cs : List Char} {n : ℕ}

lemma sliceFrom_eq_ok (as : List Char) (hcs : cs = as ++ bs) (hn : n = utf8Length as) :
    sliceFrom n cs = .ok bs := by
  rw [sliceFrom, cut?_eq_some_iff.mpr ⟨hcs, hn⟩]

lemma sliceUpTo_eq_ok (hcs : cs = as ++ bs) (hn : n = utf8Length as) :
    sliceUpTo n cs = .ok as := by
  rw [sliceUpTo, cut?_eq_some_iff.mpr ⟨hcs, hn⟩]

/-- **Moving on.** In a text that is short enough, stepping over the bytes of some characters leads
behind them. -/
lemma advance_eq_ok {k : Cursor} (hrest : k.rest = as ++ bs)
    (hoffset : k.offset + utf8Length as < Cursor.offsetBound)
    (hplace : k.location.line + k.location.column + as.length < Location.wordBound) :
    advance k (utf8Length as)
      = .ok ⟨bs, k.offset + utf8Length as, k.location.advanceOver as⟩ := by
  have hfits : (as.inits.all fun cs => (k.location.advanceOver cs).fits) = true := by
    rw [List.all_eq_true]
    intro cs hcs
    have hlength := ((List.mem_inits cs as).mp hcs).length_le
    exact Location.fits_advanceOver (by omega)
  have hpassed : (as ++ bs).take ((as ++ bs).length - bs.length) = as := by simp
  rw [advance, Cursor.advance?, if_pos hoffset, k.advanceOver_utf8Length hrest]
  simp only [hrest, hpassed, hfits, if_true]

end Guarded

end Fern
