import Fern.Diagnostic.Log
import Fern.Parsing.Expression

/-!
Functions, declarations, and whole programs.

* `prototype`, `function`, `declaration`: one of each.
* `items`: all the functions and declarations up to the end of the tokens.
* `parse`: the program that a list of tokens makes, or the first problem in it, recorded.
-/

namespace Fern

namespace Parsing

/-- A parameter with its type. -/
def parameter : Parse Parameter := do
  let name ← expect .ident "identifier"
  let _ ← expect .colon "`:`"
  let type ← type
  return ⟨name.lexeme, type, name.location⟩

/-- One parameter or more, with commas between them, up to the closing parenthesis. -/
def parametersWithin : Nat → Parse (List Parameter)
  | 0 => throw .exhausted
  | n + 1 => do
    let first ← parameter
    match ← kind with
    | .comma =>
      skip
      let others ← parametersWithin n
      return first :: others
    | .rightParen => return [first]
    | _ => failUnexpected "`,` or `)`"

/-- The name, the parameters and the return type of a function. Without an arrow nothing is
returned. -/
def prototype : Parse Prototype := do
  let _ ← expect .funcWord "`func`"
  let name ← expect .ident "identifier"
  let _ ← expect .leftParen "`(`"
  let parameters ← listUnless .rightParen (withinBudget parametersWithin)
  let _ ← expect .rightParen "`)`"
  let returnType ← optionally .arrow type
  return ⟨name.lexeme, parameters, returnType.getD .void, name.location⟩

/-- A function: its prototype and its body. -/
def function (tables : Tables) : Parse Function := do
  let prototype ← prototype
  let body ← block tables
  return ⟨prototype, body.id⟩

/-- A declaration of a function that is defined elsewhere. -/
def declaration : Parse Prototype := do
  let _ ← expect .externWord "`extern`"
  let prototype ← prototype
  let _ ← expect .semicolon "`;`"
  return prototype

/-- What a program consists of. -/
inductive Item where
  | function (f : Function)
  | declaration (p : Prototype)
deriving Repr, DecidableEq

/-- The function that an item is. -/
def Item.function? : Item → Option Function
  | .function f => some f
  | .declaration _ => none

/-- The declaration that an item is. -/
def Item.declaration? : Item → Option Prototype
  | .function _ => none
  | .declaration p => some p

/-- A function or a declaration. -/
def item (tables : Tables) : Parse Item := do
  match ← kind with
  | .funcWord => .function <$> function tables
  | .externWord => .declaration <$> declaration
  | _ => fail (.unexpectedTopLevelToken (← lexeme)) (← location)

/-- Items up to the end of the tokens. -/
def itemsWithin (tables : Tables) : Nat → Parse (List Item)
  | 0 => throw .exhausted
  | n + 1 => do
    if (← get).rest.isEmpty then return []
    else
      let first ← item tables
      let others ← itemsWithin tables n
      return first :: others

/-- A whole program. -/
def program (tables : Tables) : Parse Program := do
  let items ← withinBudget (itemsWithin tables)
  let arena ← takeArena
  return ⟨arena, items.filterMap Item.declaration?, items.filterMap Item.function?⟩

end Parsing

open Parsing

/-- The program that the tokens make. A problem is recorded, and then there is none. -/
def parse (tokens : List Token) (log : Log) : Option Program × Log :=
  match (program .standard).run (.ofTokens tokens) with
  | .ok program _ => (some program, log)
  | .error (.finding d) _ => (none, log.record d)
  | .error .exhausted _ => (none, log)

end Fern
