/-!
Places in a source text.

* `Location`: a line and a column, both counted from zero, columns in characters.
* `Location.advance`, `Location.advanceOver`: the place after one character, and after a run of
  them.
* `Location.text`: the written form, counted from one.
-/

namespace Fern

/-- A place in a source text: line and column, both counted from zero. -/
structure Location where
  line : Nat := 0
  column : Nat := 0
deriving Repr, DecidableEq, Inhabited

namespace Location

/-- The beginning of a text. -/
def start : Location := ⟨0, 0⟩

/-- The place after `c`: a newline leads to the beginning of the next line, any other character one
column on. -/
def advance (l : Location) (c : Char) : Location :=
  if c = '\n' then ⟨l.line + 1, 0⟩ else ⟨l.line, l.column + 1⟩

/-- The place after all of `cs`. -/
def advanceOver (l : Location) (cs : List Char) : Location :=
  cs.foldl advance l

/-- Lines and columns are written counted from one. -/
def text (l : Location) : String :=
  toString (l.line + 1) ++ ":" ++ toString (l.column + 1)

@[simp] theorem advanceOver_nil (l : Location) : l.advanceOver [] = l := rfl

@[simp] theorem advanceOver_cons (l : Location) (c : Char) (cs : List Char) :
    l.advanceOver (c :: cs) = (l.advance c).advanceOver cs := rfl

/-- Going over two runs one after the other is going over both at once. -/
theorem advanceOver_append (l : Location) (cs ds : List Char) :
    l.advanceOver (cs ++ ds) = (l.advanceOver cs).advanceOver ds :=
  List.foldl_append

end Location

end Fern
