import Fern.Diagnostic
import Fern.Text.Blank
import Fern.Text.Lines

/-!
The written form of a diagnostic:

```text
final.fern:20:9: error: unexpected character
   |
20 | let a = #;
   | --------^
   = note: ...
   = help: ...
```

* `Diagnostic.headline`: the first line.
* `Diagnostic.excerpt`: the offending line of the source and the caret under the reported column;
  nothing if the source has no such line.
* `Diagnostic.remarks`: a line for each note and for the hint.
* `Diagnostic.render`: all of them.
-/

namespace Fern.Diagnostic

open Text

/-- The characters that indent a line: they are left out of an excerpt. -/
def isIndent (c : Char) : Bool := c = ' ' || c = '\t'

/-- The file, the place, the severity and the message. -/
def headline (d : Diagnostic) (file : String) : String :=
  file ++ ":" ++ d.location.text ++ ": " ++ d.severity.name ++ ": " ++ d.message ++ "\n"

/-- The number of the reported line, as an excerpt shows it. -/
def lineNumber (d : Diagnostic) : String := toString (d.location.line + 1)

/-- A mark at the right end of the column that holds the line number. -/
def margin (d : Diagnostic) (mark : String) : String :=
  String.ofList (List.replicate (d.lineNumber.length + 1) ' ') ++ mark

/-- A line of dashes that ends in a caret under character `column` of a line from which `removed`
characters were taken off the front. -/
def caret (column removed : Nat) : String :=
  String.ofList (List.replicate (column - removed) '-') ++ "^"

/-- The offending line without its indentation and final blanks, and the caret below it. -/
def excerpt (d : Diagnostic) (source : List Char) : String :=
  match lineAt source d.location with
  | none => ""
  | some line =>
    d.margin "|" ++ "\n" ++
    d.lineNumber ++ " | " ++ String.ofList (trimEnd (line.dropWhile isIndent)) ++ "\n" ++
    d.margin "|" ++ " " ++ caret d.location.column (line.takeWhile isIndent).length ++ "\n"

/-- One line per note, then the hint. -/
def remarks (d : Diagnostic) : String :=
  String.join (d.notes.map fun note => d.margin "=" ++ " note: " ++ note ++ "\n") ++
  match d.hint with
  | none => ""
  | some hint => d.margin "=" ++ " help: " ++ hint ++ "\n"

/-- The written form of a diagnostic about `source`, which is called `file`. -/
def render (d : Diagnostic) (source : List Char) (file : String) : String :=
  d.headline file ++ d.excerpt source ++ d.remarks

end Fern.Diagnostic
