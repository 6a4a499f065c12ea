import Fern.Location

/-!
A reading position in a text that is stepped by UTF-8 bytes and knows its line and column.

* `Cursor.ofText`: the position at the beginning of a text.
* `Cursor.advance?`: the position some bytes further on. The end of the text stops it, and there is
  no position in the middle of a character.
* `Cursor.atEnd`, `Cursor.rest`: what is still to be read.
-/

namespace Fern.Text

/-- A reading position: what is still to be read, the bytes already read, and the place reached. -/
structure Cursor where
  rest : List Char
  offset : Nat := 0
  location : Location := .start
deriving Repr, DecidableEq

namespace Cursor

/-- Offsets are 64-bit words: an offset that reaches this bound cannot be formed. -/
def offsetBound : Nat := 0x10000000000000000

/-- The beginning of a text. -/
def ofText (cs : List Char) : Cursor := ⟨cs, 0, .start⟩

/-- The position after one character of the text. -/
def step (c : Char) (cs : List Char) (k : Cursor) : Cursor :=
  ⟨cs, k.offset + c.utf8Size, k.location.advance c⟩

/-- Steps over `n` bytes of `cs`, fewer if the text ends first. -/
def advanceOver (k : Cursor) : Nat → List Char → Option Cursor
  | 0, _ => some k
  | _, [] => some k
  | n, c :: cs => if c.utf8Size ≤ n then advanceOver (step c cs k) (n - c.utf8Size) cs else none

/-- The position `n` bytes further on, or at the end of the text if that comes first. None if it
would lie inside a character or beyond all offsets. -/
def advance? (k : Cursor) (n : Nat) : Option Cursor :=
  if k.offset + n < offsetBound then advanceOver k n k.rest else none

/-- Whether all of the text has been read. -/
def atEnd (k : Cursor) : Bool := k.rest.isEmpty

end Cursor

end Fern.Text
