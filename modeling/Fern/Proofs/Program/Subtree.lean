import Mathlib.Tactic
import Mathlib.Logic.Relation
import Fern.Program.Tree

/-!
The parts of an expression, in a tree and in a store.

* `Tree.Contains`, `Tree.Complete`: the parts of a tree, and trees of which no part is missing.
* `Tree.Throughout`: trees all parts of which have a form with some property.
* `Arena.Child`, `Arena.Reaches`: the subexpressions of a stored expression, and all that is below
  it.
* `Arena.Acyclic`: no expression contains itself, as where each is stored after its subexpressions
  (`Arena.Descending`).
* `Arena.exists_contains_of_reaches`: all that is below a number is stored and in its tree, if that
  is complete.
* `Arena.complete_tree`: where no expression contains itself, the tree of a number is complete if
  all that is below the number is stored.
-/

namespace Fern

namespace Tree

/-- The parts of a tree: itself and the parts of its subexpressions. -/
inductive Contains : Tree → Tree → Prop
  | self (t : Tree) : Contains t t
  | child {id location shape c u} (hc : c ∈ shape.children) (h : Contains c u) :
      Contains (.node id location shape) u

/-- No part of the tree is missing. -/
def Complete (t : Tree) : Prop := ∀ id, ¬ t.Contains (.missing id)

lemma Complete.child {id : NodeId} {l : Location} {shape : Shape Tree} {c : Tree}
    (h : (node id l shape).Complete) (hc : c ∈ shape.children) : c.Complete :=
  fun i hi => h i (.child hc hi)

lemma not_complete_missing (id : NodeId) : ¬ (missing id).Complete :=
  fun h => h id (.self _)

/-- A tree is complete if its subexpressions are. -/
lemma complete_node {id : NodeId} {l : Location} {shape : Shape Tree}
    (h : ∀ c ∈ shape.children, c.Complete) : (node id l shape).Complete := by
  rintro i (_ | ⟨hc, hi⟩)
  exact h _ hc i hi

lemma firstMissingOf_eq_none_iff {ts : List Tree} :
    firstMissingOf ts = none ↔ ∀ t ∈ ts, t.firstMissing = none := by
  induction ts with
  | nil => simp [firstMissingOf]
  | cons t ts ih => simp [firstMissingOf, Option.or_eq_none_iff, ih]

/-- The first missing part is the first that is missing from the subexpressions. -/
lemma firstMissing_node (id : NodeId) (l : Location) (shape : Shape Tree) :
    (node id l shape).firstMissing = firstMissingOf shape.children := by
  cases shape with
  | cond condition thenBlock elseBlock =>
      cases elseBlock <;> simp [firstMissing, firstMissingOf, Shape.children, Option.or_assoc]
  | jump operator value =>
      cases value <;> simp [firstMissing, firstMissingOf, Shape.children]
  | _ => simp [firstMissing, firstMissingOf, Shape.children]

/-- From a complete tree no first part is missing. -/
lemma Complete.firstMissing_eq_none {t : Tree} (h : t.Complete) : t.firstMissing = none := by
  induction t using Tree.childInduction with
  | missing id => exact absurd h (not_complete_missing id)
  | node id l shape ih =>
      rw [firstMissing_node, firstMissingOf_eq_none_iff]
      exact fun c hc => ih c hc (h.child hc)

/-- Every part of the tree that is not missing has a form with the property `P`. -/
def Throughout (P : Shape Tree → Prop) (t : Tree) : Prop :=
  ∀ id l shape, t.Contains (.node id l shape) → P shape

/-- A tree has such forms throughout if it has one and its subexpressions have them throughout. -/
lemma Throughout.node {P : Shape Tree → Prop} {id : NodeId} {l : Location} {shape : Shape Tree}
    (h : P shape) (hchildren : ∀ c ∈ shape.children, c.Throughout P) :
    (Tree.node id l shape).Throughout P := by
  rintro i k inner (_ | ⟨hc, hinner⟩)
  · exact h
  · exact hchildren _ hc i k inner hinner

lemma forall_mem_two {P : Tree → Prop} {t u : Tree} (ht : P t) (hu : P u) : ∀ e ∈ [t, u], P e :=
  List.forall_mem_cons.mpr ⟨ht, List.forall_mem_singleton.mpr hu⟩

end Tree

namespace Arena

variable {a : Arena}

/-- The expression `child` is a subexpression of the one stored under `parent`. -/
def Child (a : Arena) (parent child : NodeId) : Prop :=
  ∃ node, a.get? parent = some node ∧ child ∈ node.shape.children

/-- An expression reaches itself and all that is below it. -/
def Reaches (a : Arena) : NodeId → NodeId → Prop := Relation.ReflTransGen a.Child

/-- No expression contains itself. -/
def Acyclic (a : Arena) : Prop := ∀ id, ¬ Relation.TransGen a.Child id id

/-- Every expression is stored after its subexpressions. -/
def Descending (a : Arena) : Prop := ∀ parent child, a.Child parent child → child < parent

lemma descending_empty : Arena.empty.Descending := by
  rintro parent child ⟨node, hnode, -⟩
  cases hnode

lemma Descending.add (h : a.Descending) {shape : Shape NodeId} {l : Location}
    (hshape : ∀ c ∈ shape.children, c < a.size) : (a.add shape l).Descending := by
  rintro parent child ⟨node, hnode, hchild⟩
  rw [get?_add] at hnode
  split at hnode
  · next hparent =>
    cases hnode
    exact hparent ▸ hshape child hchild
  · exact h parent child ⟨node, hnode, hchild⟩

/-- Where every expression is stored after its subexpressions, none contains itself. -/
lemma Descending.acyclic (h : a.Descending) : a.Acyclic := by
  have hlt : ∀ {i j}, Relation.TransGen a.Child i j → j < i := by
    intro i j hij
    induction hij with
    | single hchild => exact h _ _ hchild
    | tail _ hchild ih => exact lt_trans (h _ _ hchild) ih
  exact fun id hid => lt_irrefl id (hlt hid)

/-- Where every expression is stored after its subexpressions, nothing below an expression has a
greater number. -/
lemma Descending.le_of_reaches (h : a.Descending) {i j : NodeId} (hij : a.Reaches i j) : j ≤ i := by
  induction hij with
  | refl => exact le_rfl
  | tail _ hchild ih => exact (h _ _ hchild).le.trans ih

lemma unfold_succ_of_get? {depth : ℕ} {id : NodeId} {node : Node} (h : a.get? id = some node) :
    a.unfold (depth + 1) id = .node id node.location (node.shape.map (a.unfold depth)) := by
  simp only [unfold, h]

/-- A complete tree begins with an expression of the store. -/
lemma exists_of_complete {depth : ℕ} {id : NodeId} (h : (a.unfold depth id).Complete) :
    ∃ n node, depth = n + 1 ∧ a.get? id = some node := by
  cases depth with
  | zero => exact absurd h (Tree.not_complete_missing id)
  | succ n =>
      cases hid : a.get? id with
      | none =>
          simp only [unfold, hid] at h
          exact absurd h (Tree.not_complete_missing id)
      | some node => exact ⟨n, node, rfl, rfl⟩

/-- All that is below a number is stored and in its tree, if that is complete. -/
lemma exists_contains_of_reaches {depth : ℕ} {id i : NodeId} (h : a.Reaches id i)
    (hcomplete : (a.unfold depth id).Complete) :
    i < a.size ∧ ∃ u, (a.unfold depth id).Contains u ∧ u.id = i := by
  induction h using Relation.ReflTransGen.head_induction_on generalizing depth with
  | refl =>
      obtain ⟨_, _, _, hnode⟩ := exists_of_complete hcomplete
      exact ⟨(Array.getElem?_eq_some_iff.mp hnode).1, _, .self _, a.id_unfold _ _⟩
  | @head parent child hchild _ ih =>
      obtain ⟨n, node, rfl, hnode⟩ := exists_of_complete hcomplete
      obtain ⟨_, hnode', hmem⟩ := hchild
      obtain rfl := Option.some.inj (hnode.symm.trans hnode')
      rw [unfold_succ_of_get? hnode] at hcomplete ⊢
      have hmem' : a.unfold n child ∈ (node.shape.map (a.unfold n)).children := by
        rw [Shape.children_map]
        exact List.mem_map_of_mem hmem
      obtain ⟨hi, u, hu, hid⟩ := ih (hcomplete.child hmem')
      exact ⟨hi, u, .child hmem' hu, hid⟩

/-- The parts of a complete tree are stored. -/
lemma lt_size_of_contains {depth : ℕ} {id : NodeId} {u : Tree}
    (hcomplete : (a.unfold depth id).Complete) (hu : (a.unfold depth id).Contains u) :
    u.id < a.size := by
  induction depth generalizing id with
  | zero => exact absurd hcomplete (Tree.not_complete_missing id)
  | succ depth ih =>
      obtain ⟨n, node, hn, hnode⟩ := exists_of_complete hcomplete
      rw [unfold_succ_of_get? hnode] at hcomplete hu
      cases hu with
      | self => exact (Array.getElem?_eq_some_iff.mp hnode).1
      | child hc hu =>
          have hchild := hcomplete.child hc
          rw [Shape.children_map] at hc
          obtain ⟨i, -, rfl⟩ := List.mem_map.mp hc
          exact ih hchild hu

/-- The tree of a number is complete if it may be as deep as there are expressions that have not
been met on the way down to it. -/
lemma complete_unfold (hacyclic : a.Acyclic) {depth : ℕ} {id : NodeId} {met : List NodeId}
    (hstored : ∀ i, a.Reaches id i → i < a.size) (hdistinct : met.Nodup)
    (hmet : ∀ i ∈ met, i < a.size ∧ Relation.TransGen a.Child i id)
    (hdepth : a.size ≤ depth + met.length) : (a.unfold depth id).Complete := by
  have hid : id < a.size := hstored id .refl
  have hnew : id ∉ met := fun h => hacyclic id (hmet id h).2
  induction depth generalizing id met with
  | zero =>
      -- all numbers would have been met, this one among them
      have hall : met.length + 1 ≤ a.size := by
        have hsub : (id :: met).toFinset ⊆ Finset.range a.size := by
          intro i hi
          rcases List.mem_cons.mp (List.mem_toFinset.mp hi) with rfl | hi
          · exact Finset.mem_range.mpr hid
          · exact Finset.mem_range.mpr (hmet i hi).1
        have hcard := Finset.card_le_card hsub
        rwa [List.toFinset_card_of_nodup (List.nodup_cons.mpr ⟨hnew, hdistinct⟩),
          Finset.card_range, List.length_cons] at hcard
      omega
  | succ depth ih =>
      obtain ⟨node, hnode⟩ : ∃ node, a.get? id = some node :=
        ⟨_, Array.getElem?_eq_getElem hid⟩
      rw [unfold_succ_of_get? hnode]
      refine Tree.complete_node fun c hc => ?_
      rw [Shape.children_map] at hc
      obtain ⟨child, hmem, rfl⟩ := List.mem_map.mp hc
      have hchild : a.Child id child := ⟨node, hnode, hmem⟩
      have hstored' : ∀ i, a.Reaches child i → i < a.size := fun i hi => hstored i (.head hchild hi)
      have hmet' : ∀ i ∈ id :: met, i < a.size ∧ Relation.TransGen a.Child i child := by
        intro i hi
        rcases List.mem_cons.mp hi with rfl | hi
        · exact ⟨hid, .single hchild⟩
        · exact ⟨(hmet i hi).1, (hmet i hi).2.tail hchild⟩
      refine ih hstored' (List.nodup_cons.mpr ⟨hnew, hdistinct⟩) hmet' ?_ (hstored' child .refl) ?_
      · rw [List.length_cons]
        omega
      · exact fun h => hacyclic child (hmet' child h).2

/-- Where no expression contains itself, the tree of a number is complete if all that is below the
number is stored. -/
lemma complete_tree (hacyclic : a.Acyclic) {id : NodeId}
    (hstored : ∀ i, a.Reaches id i → i < a.size) : (a.tree id).Complete :=
  complete_unfold hacyclic hstored List.nodup_nil (by simp) (by simp)

end Arena

end Fern
