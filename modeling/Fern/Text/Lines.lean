import Fern.Location

/-!
The lines of a text.

* `lines`: a line ends at a newline, alone or after a carriage return, and neither belongs to it. A
  text that ends with a newline has no empty line after it.
* `lineAt`: the line that holds a location.
-/

namespace Fern.Text

/-- The lines of a text, without their ends. A carriage return counts as part of the end only where
a newline follows it. -/
def lines : List Char → List (List Char)
  | [] => []
  | '\n' :: cs => [] :: lines cs
  | '\r' :: '\n' :: cs => [] :: lines cs
  | c :: cs =>
    match lines cs with
    | [] => [[c]]
    | l :: ls => (c :: l) :: ls

/-- The line that `l` lies in, if the text has that many. -/
def lineAt (source : List Char) (l : Location) : Option (List Char) :=
  (lines source)[l.line]?

end Fern.Text
