/-!
Requests to compile a file.

* `Dump`: a pass whose result can be dumped.
* `Options`: what is asked for, and of which file.
* `displayName`: the last name of a path, by which reports call a file.
-/

namespace Fern.CommandLine

/-- A pass whose result can be dumped. -/
inductive Dump where
  | lex
  | parse
  | codegen
deriving Repr, DecidableEq

/-- A complete request. -/
structure Options where
  file : String
  dumps : List Dump := []
  output : Option String := none
  timings : Bool := false
deriving Repr, DecidableEq

/-- The names in a path. An empty one comes from a doubled slash or one at an end. -/
def segments (path : String) : List String :=
  (path.splitToList (· = '/'))

/-- Whether a name stands for the directory it is in. -/
def isHere (name : String) : Bool := name = "" || name = "."

/-- The last name of a path, or the whole path if it ends with none. -/
def displayName (path : String) : String :=
  match ((segments path).filter (!isHere ·)).getLast? with
  | some name => if name = ".." then path else name
  | none => path

end Fern.CommandLine
