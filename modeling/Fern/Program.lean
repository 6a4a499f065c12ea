import Fern.Program.Tree
import Fern.Scope

/-!
Programs: functions, declarations of functions that are defined elsewhere, and the store of the
expressions in their bodies.

* `Prototype`: the name, the parameters and the return type of a function.
* `Program`: the store, the declarations and the functions, in the order in which they are written.
* `Program.findFunction`, `Program.findDeclaration`: the first with a name.
-/

namespace Fern

/-- A parameter of a function. -/
structure Parameter where
  name : String
  type : Ty
  location : Location
deriving Repr, DecidableEq

/-- What callers know of a function. -/
structure Prototype where
  name : String
  parameters : List Parameter
  returnType : Ty
  location : Location
deriving Repr, DecidableEq

/-- A function: its prototype and the number of its body. -/
structure Function where
  prototype : Prototype
  body : NodeId
deriving Repr, DecidableEq

/-- A whole program. -/
structure Program where
  arena : Arena := .empty
  declarations : List Prototype := []
  functions : List Function := []
deriving Repr, DecidableEq

/-- A number that no expression is stored under. -/
structure MissingNode where
  id : NodeId
deriving Repr, DecidableEq

namespace Program

/-- The first function with a name. -/
def findFunction (p : Program) (name : String) : Option Function :=
  p.functions.find? (·.prototype.name = name)

/-- The first declaration with a name. -/
def findDeclaration (p : Program) (name : String) : Option Prototype :=
  p.declarations.find? (·.name = name)

/-- The body of a function. -/
def body (p : Program) (f : Function) : Tree := p.arena.tree f.body

end Program

end Fern
