import Mathlib.Tactic
import Fern.Proofs.Program.Subtree

/-!
Trees that a store holds.

* `Arena.Extends`: a store still has what an earlier one had.
* `Arena.Stores`: a store has every expression of a tree under its number, and subexpressions have
  smaller numbers than what contains them. `Arena.Stores.mono` carries this over to later stores,
  and `Arena.stores_add` is the step that puts an expression over stored ones.
* `Arena.Stores.tree_eq`: a stored tree is the tree of its number.
* `Tree.Laid`: trees whose parts have numbers of their own, in the order in which they are stored.
  `Tree.Laid.append` puts runs of trees together, and `Tree.Laid.notMem` says that no number belongs
  to two of them.
-/

namespace Fern

/-- Leaving every subexpression as it is leaves the form as it is. -/
lemma Shape.map_self {ε : Type} (s : Shape ε) : (s.map fun e => e) = s := by
  cases s <;> simp [map]

namespace Arena

/-- A store `b` has what an earlier store `a` had. -/
def Extends (a b : Arena) : Prop :=
  ∀ id node, a.get? id = some node → b.get? id = some node

lemma Extends.refl (a : Arena) : a.Extends a := fun _ _ h => h

lemma Extends.trans {a b c : Arena} (hab : a.Extends b) (hbc : b.Extends c) : a.Extends c :=
  fun id node h => hbc id node (hab id node h)

/-- A number with an expression is smaller than that of the next expression. -/
lemma lt_size_of_get? {a : Arena} {id : NodeId} {node : Node} (h : a.get? id = some node) :
    id < a.size :=
  (Array.getElem?_eq_some_iff.mp h).choose

/-- Storing one more expression keeps the others. -/
lemma extends_add (a : Arena) (shape : Shape NodeId) (l : Location) :
    a.Extends (a.add shape l) := by
  intro id node h
  rw [get?_add, if_neg (lt_size_of_get? h).ne]
  exact h

/-- Every expression of a tree is stored under its number, above its subexpressions. -/
inductive Stores (a : Arena) : Tree → Prop
  | node {id l shape} (found : a.get? id = some ⟨shape.map Tree.id, l⟩)
      (below : ∀ t ∈ shape.children, t.id < id) (children : ∀ t ∈ shape.children, Stores a t) :
      Stores a (.node id l shape)

/-- What a store holds a later one holds too. -/
lemma Stores.mono {a b : Arena} {t : Tree} (h : a.Stores t) (hab : a.Extends b) : b.Stores t := by
  induction h with
  | node found below _ ih => exact .node (hab _ _ found) below ih

/-- The number of a stored tree has an expression. -/
lemma Stores.id_lt {a : Arena} {t : Tree} (h : a.Stores t) : t.id < a.size := by
  cases h with
  | node found _ _ => exact lt_size_of_get? found

/-- The parts of a stored tree are stored. -/
lemma Stores.contains {a : Arena} {t u : Tree} (h : a.Stores t) (hu : t.Contains u) :
    a.Stores u := by
  induction hu with
  | self => exact h
  | child hc _ ih =>
      cases h with
      | node _ _ children => exact ih (children _ hc)

/-- Nothing is missing from a stored tree. -/
lemma Stores.complete {a : Arena} {t : Tree} (h : a.Stores t) : t.Complete := by
  intro id hid
  cases h.contains hid

/-- An expression over stored ones is stored with them. -/
lemma stores_add {a : Arena} {shape : Shape Tree} (l : Location)
    (h : ∀ t ∈ shape.children, a.Stores t) :
    (a.add (shape.map Tree.id) l).Stores (.node a.size l shape) := by
  have hfound : (a.add (shape.map Tree.id) l).get? a.size = some ⟨shape.map Tree.id, l⟩ := by
    rw [get?_add, if_pos rfl]
  have hbelow : ∀ t ∈ shape.children, t.id < a.size := fun t ht => (h t ht).id_lt
  exact .node hfound hbelow fun t ht => (h t ht).mono (a.extends_add _ _)

/-- A stored tree is found from its number, whatever the depth above that number. -/
lemma Stores.unfold_eq {a : Arena} {t : Tree} (h : a.Stores t) :
    ∀ depth, t.id < depth → a.unfold depth t.id = t := by
  induction h with
  | @node id l shape found below _ ih =>
      intro depth hdepth
      cases depth with
      | zero => exact absurd hdepth (Nat.not_lt_zero _)
      | succ depth =>
          have hsame : ∀ t ∈ shape.children, (a.unfold depth ∘ Tree.id) t = t := fun t ht =>
            ih t ht depth ((below t ht).trans_le (Nat.le_of_lt_succ hdepth))
          simp only [Tree.id, unfold, found, Shape.map_map, Shape.map_congr hsame, Shape.map_self]

/-- A later store has no fewer expressions. -/
lemma Extends.size_le {a b : Arena} (h : a.Extends b) : a.size ≤ b.size := by
  by_contra hlt
  obtain ⟨node, hnode⟩ : ∃ node, a.get? b.size = some node :=
    ⟨_, Array.getElem?_eq_getElem (not_le.mp hlt)⟩
  exact absurd (lt_size_of_get? (h _ _ hnode)) (lt_irrefl _)

/-- In a later store a complete tree is as it was, however deep one may go. -/
lemma Extends.unfold_eq {a b : Arena} (h : a.Extends b) {depth depth' : ℕ} {id : NodeId}
    (hdepth : depth ≤ depth') (hcomplete : (a.unfold depth id).Complete) :
    b.unfold depth' id = a.unfold depth id := by
  induction depth generalizing depth' id with
  | zero => exact absurd hcomplete (Tree.not_complete_missing id)
  | succ depth ih =>
      obtain ⟨n, node, hn, hnode⟩ := exists_of_complete hcomplete
      obtain ⟨depth', rfl⟩ := Nat.exists_eq_succ_of_ne_zero (Nat.ne_zero_of_lt hdepth)
      rw [unfold_succ_of_get? hnode] at hcomplete ⊢
      rw [unfold_succ_of_get? (h _ _ hnode)]
      refine congrArg (Tree.node id node.location) (Shape.map_congr fun i hi => ?_)
      refine ih (Nat.le_of_succ_le_succ hdepth) (hcomplete.child ?_)
      rw [Shape.children_map]
      exact List.mem_map_of_mem hi

/-- In a later store the complete tree of a number is still the tree of that number. -/
lemma Extends.tree_eq {a b : Arena} (h : a.Extends b) {id : NodeId}
    (hcomplete : (a.tree id).Complete) : b.tree id = a.tree id :=
  h.unfold_eq h.size_le hcomplete

/-- **Stored trees.** A stored tree is the tree of its number. -/
lemma Stores.tree_eq {a : Arena} {t : Tree} (h : a.Stores t) : a.tree t.id = t :=
  h.unfold_eq a.size h.id_lt

end Arena

/-! ### Numbers of their own -/

namespace Tree

/-- The parts of the trees `es` have numbers from `lo` up to `hi`, no two of them the same:
subexpressions come before what contains them, and trees in the order of the list. -/
inductive Laid : ℕ → List Tree → ℕ → Prop
  | nil {lo hi} (h : lo ≤ hi) : Laid lo [] hi
  | cons {lo id l shape es hi} (inner : Laid lo shape.children id) (others : Laid (id + 1) es hi) :
      Laid lo (.node id l shape :: es) hi

namespace Laid

variable {lo mid hi : ℕ} {es fs : List Tree}

lemma le (h : Laid lo es hi) : lo ≤ hi := by
  induction h with
  | nil h => exact h
  | cons _ _ inner others => omega

/-- Smaller numbers may be left out. -/
lemma mono (h : Laid mid es hi) (hlo : lo ≤ mid) : Laid lo es hi := by
  induction h generalizing lo with
  | nil h => exact .nil (hlo.trans h)
  | cons _ others inner _ => exact .cons (inner hlo) others

/-- One run of trees after another is a run of both. -/
lemma append (h : Laid lo es mid) (h' : Laid mid fs hi) : Laid lo (es ++ fs) hi := by
  induction h with
  | nil h => exact h'.mono h
  | cons inner _ _ others => exact .cons inner (others h')

/-- An expression is stored after its subexpressions. -/
lemma node {id : NodeId} {l : Location} {shape : Shape Tree} (h : Laid lo shape.children id) :
    Laid lo [.node id l shape] (id + 1) :=
  .cons h (.nil le_rfl)

/-- The parts of the trees have numbers from the first up to the last. -/
lemma bounds (h : Laid lo es hi) {e u : Tree} (he : e ∈ es) (hu : e.Contains u) :
    lo ≤ u.id ∧ u.id < hi := by
  induction h generalizing e with
  | nil => cases he
  | cons inner others ih ihes =>
      have hinner := inner.le
      have hothers := others.le
      rcases List.mem_cons.mp he with rfl | he
      · cases hu with
        | self => exact ⟨hinner, hothers⟩
        | child hc hu =>
            obtain ⟨habove, hbelow⟩ := ih hc hu
            exact ⟨habove, hbelow.trans (Nat.lt_of_succ_le hothers)⟩
      · obtain ⟨habove, hbelow⟩ := ihes he hu
        exact ⟨(hinner.trans (Nat.le_succ _)).trans habove, hbelow⟩

/-- No part of the first trees has the number of a part of the others. -/
lemma notMem (h : Laid lo (es ++ fs) hi) {e f u v : Tree} (he : e ∈ es) (hf : f ∈ fs)
    (hu : e.Contains u) (hv : f.Contains v) : u.id ≠ v.id := by
  induction es generalizing lo with
  | nil => cases he
  | cons x es ih =>
      cases h with
      | cons inner others =>
          rcases List.mem_cons.mp he with rfl | he
          · have hbelow := (node inner).bounds (List.mem_singleton_self _) hu
            have habove := others.bounds (List.mem_append_right es hf) hv
            exact (hbelow.2.trans_le habove.1).ne
          · exact ih others he

end Laid

end Tree

end Fern
