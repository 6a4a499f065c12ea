import Fern.Program.Shape

/-!
Expressions as a store of numbered nodes, and as trees.

* `Node`, `Arena`: the store. Nodes are only ever added, so a number stays valid.
* `Tree`: an expression with all its subexpressions, each with its number and place.
* `Arena.tree`: the tree of a number. A number without a node gives a `missing` leaf.
* `Tree.childInduction`: what holds of an expression whenever it holds of its subexpressions holds
  of all.
-/

namespace Fern

/-- The number of an expression: how many were stored before it. -/
abbrev NodeId := Nat

/-- A stored expression, which refers to its subexpressions by their numbers. -/
structure Node where
  shape : Shape NodeId
  location : Location
deriving Repr, DecidableEq

/-- A store of expressions, by number. -/
structure Arena where
  nodes : Array Node := #[]
deriving Repr, DecidableEq

/-- An expression with all its subexpressions. -/
inductive Tree where
  /-- A number that no expression is stored under. -/
  | missing (id : NodeId)
  | node (id : NodeId) (location : Location) (shape : Shape Tree)
deriving Repr, Inhabited

namespace Tree

/-- The number of the whole expression. -/
def id : Tree → NodeId
  | missing id | node id _ _ => id

/-- The place of the whole expression. -/
def location : Tree → Location
  | missing _ => .start
  | node _ location _ => location

/-- Whether the expression is a `return`, with or without a value. -/
def isReturn : Tree → Bool
  | node _ _ (.jump .returnWord _) => true
  | _ => false

/-- Whether the expression ends with a block, so that no semicolon is needed after it. -/
def endsWithBlock : Tree → Bool
  | node _ _ (.cond _ _ _) | node _ _ (.block _) => true
  | _ => false

/-- The name that the expression consists of, if it is one. -/
def name? : Tree → Option String
  | node _ _ (.var n) => some n
  | _ => none

/-- What holds of an expression whenever it holds of its subexpressions holds of all. -/
@[elab_as_elim]
theorem childInduction {P : Tree → Prop} (missing : ∀ id, P (.missing id))
    (node : ∀ id location shape, (∀ t ∈ shape.children, P t) → P (.node id location shape))
    (t : Tree) : P t :=
  @Tree.rec P (fun s => ∀ t ∈ s.children, P t) (fun o => ∀ t ∈ o, P t) (fun ts => ∀ t ∈ ts, P t)
    missing node
    (by simp_all [Shape.children]) (by simp_all [Shape.children]) (by simp_all [Shape.children])
    (by simp_all [Shape.children]) (by simp_all [Shape.children]) (by simp_all [Shape.children])
    (by simp_all [Shape.children]) (by simp_all [Shape.children]) (by simp_all [Shape.children])
    (by simp_all [Shape.children]) (by simp_all [Shape.children]) (by simp_all [Shape.children])
    (by simp_all [Shape.children]) (by simp) (by simp_all) (by simp) (by simp_all) t

/-! ### Missing expressions -/

mutual

/-- The first number without an expression, from the root down and from left to right. -/
def firstMissing : Tree → Option NodeId
  | missing id => some id
  | node _ _ (.binary _ left right) => (firstMissing left).or (firstMissing right)
  | node _ _ (.unary _ operand) => firstMissing operand
  | node _ _ (.cond condition thenBlock none) =>
    (firstMissing condition).or (firstMissing thenBlock)
  | node _ _ (.cond condition thenBlock (some elseBlock)) =>
    ((firstMissing condition).or (firstMissing thenBlock)).or (firstMissing elseBlock)
  | node _ _ (.binding _ _ value) => firstMissing value
  | node _ _ (.block statements) => firstMissingOf statements
  | node _ _ (.jump _ none) => none
  | node _ _ (.jump _ (some value)) => firstMissing value
  | node _ _ (.call _ arguments) => firstMissingOf arguments
  | node _ _ (.subscript operand index) => (firstMissing operand).or (firstMissing index)
  | node _ _ (.var _) | node _ _ (.boolean _) | node _ _ (.number _ _) | node _ _ (.string _)
  | node _ _ (.char _) => none

/-- The first number without an expression in a list of trees. -/
def firstMissingOf : List Tree → Option NodeId
  | [] => none
  | t :: ts => (firstMissing t).or (firstMissingOf ts)

end

end Tree

namespace Arena

/-- No expressions. -/
def empty : Arena := ⟨#[]⟩

/-- The number of stored expressions, which is the number that the next one gets. -/
def size (a : Arena) : Nat := a.nodes.size

/-- The expression stored under a number. -/
def get? (a : Arena) (id : NodeId) : Option Node := a.nodes[id]?

/-- Stores one more expression. -/
def add (a : Arena) (shape : Shape NodeId) (location : Location) : Arena :=
  ⟨a.nodes.push ⟨shape, location⟩⟩

/-- Whether a number belongs to a block. -/
def isBlock (a : Arena) (id : NodeId) : Bool := (a.get? id).any (·.shape.isBlock)

/-- The tree of a number down to a depth, with `missing` below. -/
def unfold (a : Arena) : Nat → NodeId → Tree
  | 0, id => .missing id
  | depth + 1, id =>
    match a.get? id with
    | none => .missing id
    | some node => .node id node.location (node.shape.map (a.unfold depth))

/-- The tree of a number. Where no expression contains itself, no path is longer than the store, so
nothing is cut off. -/
def tree (a : Arena) (id : NodeId) : Tree := a.unfold a.size id

@[simp] theorem size_add (a : Arena) (shape : Shape NodeId) (location : Location) :
    (a.add shape location).size = a.size + 1 := Array.size_push _

/-- A stored expression stays where it is, and the new one is found under the next number. -/
theorem get?_add (a : Arena) (shape : Shape NodeId) (location : Location) (id : NodeId) :
    (a.add shape location).get? id = if id = a.size then some ⟨shape, location⟩ else a.get? id :=
  Array.getElem?_push

@[simp] theorem id_unfold (a : Arena) (depth : Nat) (id : NodeId) :
    (a.unfold depth id).id = id := by
  cases depth with
  | zero => rfl
  | succ => unfold unfold; split <;> rfl

@[simp] theorem id_tree (a : Arena) (id : NodeId) : (a.tree id).id = id := a.id_unfold _ id

end Arena

end Fern
