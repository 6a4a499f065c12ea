import Fern.Program

/-!
The dump of a program: one line per function, parameter and expression, indented by its depth.

* `Dump.Line`: a depth and a text.
* `Tree.outline`, `Program.outline`: the lines of an expression and of a program.
* `Program.dump`: the written dump. A body that refers to a missing expression has none.
-/

namespace Fern

namespace Dump

/-- A line of a dump. -/
structure Line where
  depth : Nat
  text : String
deriving Repr, DecidableEq

/-- A line is indented by two spaces for each level. -/
def Line.render (l : Line) : String :=
  String.ofList (List.replicate (2 * l.depth) ' ') ++ l.text ++ "\n"

/-- A line that names a form and gives a detail of it. -/
def titled (title detail : String) : String := title ++ ": '" ++ detail ++ "'"

end Dump

open Dump

mutual

/-- The lines of an expression whose own line is at `depth`; its subexpressions are one level
deeper. -/
def Tree.outline (depth : Nat) : Tree → List Line
  | .missing _ => []
  | .node _ _ (.binary operator left right) =>
    ⟨depth, titled "BinaryNode" operator.name⟩ ::
      (left.outline (depth + 1) ++ right.outline (depth + 1))
  | .node _ _ (.unary operator operand) =>
    ⟨depth, titled "UnaryNode" operator.name⟩ :: operand.outline (depth + 1)
  | .node _ _ (.cond condition thenBlock none) =>
    ⟨depth, "IfNode:"⟩ :: (condition.outline (depth + 1) ++ thenBlock.outline (depth + 1))
  | .node _ _ (.cond condition thenBlock (some elseBlock)) =>
    ⟨depth, "IfNode:"⟩ :: (condition.outline (depth + 1) ++ thenBlock.outline (depth + 1) ++
      elseBlock.outline (depth + 1))
  | .node _ _ (.binding name none value) =>
    ⟨depth, titled "LetNode" name⟩ :: value.outline (depth + 1)
  | .node _ _ (.binding name (some type) value) =>
    ⟨depth, titled "LetNode" name ++ " (ty annot: " ++ type.text ++ ")"⟩ ::
      value.outline (depth + 1)
  | .node _ _ (.block statements) =>
    ⟨depth, "BlockNode:"⟩ :: Tree.outlineAll (depth + 1) statements
  | .node _ _ (.jump operator none) => [⟨depth, titled "SingleOpNode" operator.name⟩]
  | .node _ _ (.jump operator (some value)) =>
    ⟨depth, titled "SingleOpNode" operator.name⟩ :: value.outline (depth + 1)
  | .node _ _ (.call callee arguments) =>
    ⟨depth, titled "CallNode" callee⟩ :: Tree.outlineAll (depth + 1) arguments
  | .node _ _ (.var name) => [⟨depth, titled "VariableNode" name⟩]
  | .node _ _ (.subscript operand index) =>
    ⟨depth, "SubscriptNode:"⟩ :: (operand.outline (depth + 1) ++ index.outline (depth + 1))
  | .node _ _ (.boolean value) =>
    [⟨depth, titled "BooleanNode" (if value then "true" else "false")⟩]
  | .node _ _ (.number value _) => [⟨depth, titled "NumberNode" value⟩]
  | .node _ _ (.string value) => [⟨depth, "StringNode: \"" ++ value ++ "\""⟩]
  | .node _ _ (.char value) => [⟨depth, titled "CharNode" value⟩]

/-- The lines of expressions at one depth, one after the other. -/
def Tree.outlineAll (depth : Nat) : List Tree → List Line
  | [] => []
  | t :: ts => t.outline depth ++ Tree.outlineAll depth ts

end

/-- The line of a parameter. -/
def Parameter.outline (depth : Nat) (p : Parameter) : Line :=
  ⟨depth, titled "PrototypeArg" p.name ++ " (ty: " ++ p.type.text ++ ")"⟩

/-- The lines of a prototype: itself, and its parameters one level deeper. -/
def Prototype.outline (depth : Nat) (p : Prototype) : List Line :=
  ⟨depth, titled "Prototype" p.name ++ " (ret ty: " ++ p.returnType.text ++ ")"⟩ ::
    p.parameters.map (·.outline (depth + 1))

namespace Program

/-- The lines of a program: the declarations, then the functions. -/
def outline (p : Program) : List Line :=
  p.declarations.flatMap (fun e => ⟨0, "ExternNode:"⟩ :: e.outline 1) ++
  p.functions.flatMap fun f =>
    ⟨0, "FunctionNode:"⟩ :: (f.prototype.outline 1 ++ (p.body f).outline 1)

/-- The first number that a body refers to in vain. -/
def firstMissing (p : Program) : Option NodeId :=
  p.functions.findSome? fun f => (p.body f).firstMissing

/-- The written dump of a program. -/
def dump (p : Program) : Except MissingNode String :=
  match p.firstMissing with
  | some id => .error ⟨id⟩
  | none => .ok (String.join (p.outline.map Line.render))

end Program

end Fern
