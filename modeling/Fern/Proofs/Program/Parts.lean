import Mathlib.Tactic
import Fern.Proofs.Parsing.Storage

/-!
The parts of an expression as a list.

* `Tree.children`, `Tree.parts`: the subexpressions of a tree, and all its parts from the root down
  and from left to right.
* `Tree.mem_parts_iff`: these are the parts that the tree contains.
* `Tree.Laid.pairwise_parts`: parts with numbers of their own are listed once, and after those that
  contain them.
-/

namespace Fern.Tree

/-- The subexpressions, from left to right. -/
def children : Tree → List Tree
  | missing _ => []
  | node _ _ shape => shape.children

mutual

/-- All parts, from the root down and from left to right. -/
def parts (t : Tree) : List Tree :=
  t :: match t with
  | node _ _ (.binary _ left right) => parts left ++ parts right
  | node _ _ (.unary _ operand) => parts operand
  | node _ _ (.cond condition thenBlock none) => parts condition ++ parts thenBlock
  | node _ _ (.cond condition thenBlock (some elseBlock)) =>
    parts condition ++ parts thenBlock ++ parts elseBlock
  | node _ _ (.binding _ _ value) => parts value
  | node _ _ (.block statements) => partsOf statements
  | node _ _ (.jump _ (some value)) => parts value
  | node _ _ (.call _ arguments) => partsOf arguments
  | node _ _ (.subscript operand index) => parts operand ++ parts index
  | _ => []

/-- All parts of some trees. -/
def partsOf : List Tree → List Tree
  | [] => []
  | t :: ts => parts t ++ partsOf ts

end

variable {t u : Tree} {ts : List Tree} {lo hi : ℕ}

/-- The parts of a part are parts of the whole. -/
lemma Contains.trans {v : Tree} (h : t.Contains u) (h' : u.Contains v) : t.Contains v := by
  induction h with
  | self => exact h'
  | child hc _ ih => exact .child hc (ih h')

lemma contains_of_mem_children (h : u ∈ t.children) : t.Contains u := by
  cases t with
  | missing id => cases h
  | node id l shape => exact .child h (.self u)

lemma partsOf_eq (ts : List Tree) : partsOf ts = ts.flatMap parts := by
  induction ts with
  | nil => rfl
  | cons t ts ih => rw [partsOf, ih, List.flatMap_cons]

/-- The parts are the tree and the parts of its subexpressions. -/
lemma parts_eq (t : Tree) : t.parts = t :: t.children.flatMap parts := by
  cases t with
  | missing id => rfl
  | node id l shape =>
      cases shape with
      | cond _ _ elseBlock =>
          cases elseBlock <;> simp [parts, children, Shape.children]
      | jump _ value => cases value <;> simp [parts, children, Shape.children]
      | _ => simp [parts, partsOf_eq, children, Shape.children]

lemma mem_parts_iff : u ∈ t.parts ↔ t.Contains u := by
  induction t using childInduction with
  | missing id =>
      refine ⟨fun h => ?_, fun h => ?_⟩
      · obtain rfl := List.mem_singleton.mp h
        exact .self _
      · cases h
        exact List.mem_singleton_self _
  | node id l shape ih =>
      rw [parts_eq, List.mem_cons, List.mem_flatMap]
      constructor
      · rintro (rfl | ⟨c, hc, hu⟩)
        · exact .self _
        · exact .child hc ((ih c hc).mp hu)
      · intro h
        cases h with
        | self => exact .inl rfl
        | child hc h => exact .inr ⟨_, hc, (ih _ hc).mpr h⟩

/-- Where parts have numbers of their own, no two have the same number, and a part comes after those
that contain it. -/
lemma Laid.pairwise_parts (h : Laid lo ts hi) :
    (ts.flatMap parts).Pairwise fun u v => u.id ≠ v.id ∧ ¬v.Contains u := by
  induction h with
  | nil => exact .nil
  | @cons lo n l shape es hi inner others ihinner ihothers =>
      have hroot : ∀ v ∈ shape.children.flatMap parts,
          n ≠ v.id ∧ ¬v.Contains (.node n l shape) := by
        intro v hv
        obtain ⟨c, hc, hv⟩ := List.mem_flatMap.mp hv
        have hbelow := inner.bounds hc (mem_parts_iff.mp hv)
        exact ⟨hbelow.2.ne', fun hself =>
          (inner.bounds hc ((mem_parts_iff.mp hv).trans hself)).2.ne rfl⟩
      have hothers : ∀ u ∈ (Tree.node n l shape).parts, ∀ v ∈ es.flatMap parts,
          u.id ≠ v.id ∧ ¬v.Contains u := by
        intro u hu v hv
        obtain ⟨e, he, hv⟩ := List.mem_flatMap.mp hv
        have hbelow :=
          ((Laid.node inner).bounds (List.mem_singleton_self _) (mem_parts_iff.mp hu)).2
        have habove := others.bounds he (mem_parts_iff.mp hv)
        exact ⟨(hbelow.trans_le habove.1).ne, fun hcontains => hbelow.not_ge
          (others.bounds he ((mem_parts_iff.mp hv).trans hcontains)).1⟩
      rw [List.flatMap_cons, List.pairwise_append]
      refine ⟨?_, ihothers, hothers⟩
      rw [parts_eq]
      exact .cons hroot ihinner

/-- Parts with numbers of their own are listed once. -/
lemma Laid.nodup_parts (h : Laid lo ts hi) : ((ts.flatMap parts).map id).Nodup :=
  List.pairwise_map.mpr (h.pairwise_parts.imp And.left)

end Fern.Tree
