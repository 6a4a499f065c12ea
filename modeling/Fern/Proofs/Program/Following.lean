import Mathlib.Tactic
import Fern.Program
import Fern.Proofs.Parsing.Storage

/-!
One program after another.

* `Arena.followedBy`: the expressions of one store, then those of another under the next numbers.
  Adding to the second store is adding to both.
* `Program.followedBy`: the declarations and functions of one program, then those of another, with
  their expressions in one store.
-/

namespace Fern

/-- The stored expression where the numbers of its subexpressions are larger by `k`. -/
def Node.shift (k : ℕ) (n : Node) : Node := { n with shape := n.shape.map (k + ·) }

/-- The function where the number of its body is larger by `k`. -/
def Function.shift (k : ℕ) (f : Function) : Function := { f with body := k + f.body }

namespace Arena

/-- The expressions of `a`, then those of `b` under the next numbers. -/
def followedBy (a b : Arena) : Arena := ⟨a.nodes ++ b.nodes.map (Node.shift a.size)⟩

@[simp] lemma size_followedBy (a b : Arena) : (a.followedBy b).size = a.size + b.size := by
  simp [followedBy, size]

@[simp] lemma followedBy_empty (a : Arena) : a.followedBy empty = a := by
  simp [followedBy, empty]

@[simp] lemma empty_followedBy (a : Arena) : empty.followedBy a = a := by
  have hshift : Node.shift 0 = fun n => n := by
    funext n
    have hnumber : (0 + · : ℕ → ℕ) = fun i => i := funext Nat.zero_add
    exact congrArg (Node.mk · n.location) (hnumber ▸ n.shape.map_self)
  simp [followedBy, empty, size, hshift]

/-- What is added to the second store refers to its expressions by their numbers in both. -/
lemma followedBy_add (a b : Arena) (shape : Shape NodeId) (l : Location) :
    a.followedBy (b.add shape l) = (a.followedBy b).add (shape.map (a.size + ·)) l := by
  simp [followedBy, add, Node.shift]

end Arena

/-- The declarations and functions of `p`, then those of `q`. -/
def Program.followedBy (p q : Program) : Program where
  arena := p.arena.followedBy q.arena
  declarations := p.declarations ++ q.declarations
  functions := p.functions ++ q.functions.map (Function.shift p.arena.size)

lemma Program.followedBy_empty (p : Program) : p.followedBy {} = p := by
  simp only [followedBy, Arena.followedBy_empty, List.append_nil, List.map_nil]

end Fern
