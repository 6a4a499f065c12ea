import Mathlib.Tactic
import Mathlib.Data.List.Perm.Basic
import Fern.Proofs.Parsing.Storage

/-!
How trees fill a run of numbers in a store.

* `Arena.Fills`: the numbers of a run are those of the parts of some trees, apart from a few names
  that belong to none of them. `Arena.Fills.append` puts runs together, and `Arena.Fills.loosen`
  leaves a name out of the trees.
* `Arena.FillsInTurn`: each tree ends a run of its own.
* `Arena.Fills.exists_loose`: in such a run every number occurs once, as a subexpression, as a tree
  or as one of those names.
* `Arena.Consecutive`: each of some roots has all that is below it in a run of its own.
-/

namespace Fern

namespace Tree.Laid

variable {lo hi : ℕ} {es : List Tree}

/-- Trees one after the other have rising numbers. -/
lemma pairwise (h : Laid lo es hi) : (es.map Tree.id).Pairwise (· < ·) := by
  induction h with
  | nil => exact .nil
  | cons _ others _ ih =>
      refine .cons (fun i hi => ?_) ih
      obtain ⟨e, he, rfl⟩ := List.mem_map.mp hi
      exact (others.bounds he (.self e)).1

/-- So have the subexpressions of every part of the trees. -/
lemma part (h : Laid lo es hi) {e : Tree} (he : e ∈ es) {id : NodeId} {l : Location}
    {shape : Shape Tree} (hpart : e.Contains (.node id l shape)) :
    ∃ lo', Laid lo' shape.children id := by
  induction h generalizing e with
  | nil => cases he
  | cons inner _ ih ihes =>
      rcases List.mem_cons.mp he with rfl | he
      · cases hpart with
        | self => exact ⟨_, inner⟩
        | child hc hpart => exact ih hc hpart
      · exact ihes he hpart

end Tree.Laid

namespace Arena

/-- The numbers of the subexpressions of a stored expression, from left to right. -/
def childrenOf (a : Arena) (id : NodeId) : List NodeId :=
  match a.get? id with
  | none => []
  | some node => node.shape.children

/-- A name is stored under the number. -/
def IsName (a : Arena) (id : NodeId) : Prop := ∃ name l, a.get? id = some ⟨.var name, l⟩

lemma childrenOf_of_get? {a : Arena} {id : NodeId} {node : Node} (h : a.get? id = some node) :
    a.childrenOf id = node.shape.children := by
  simp [childrenOf, h]

lemma IsName.childrenOf_eq {a : Arena} {id : NodeId} (h : a.IsName id) : a.childrenOf id = [] := by
  obtain ⟨name, l, hfound⟩ := h
  rw [childrenOf_of_get? hfound]
  rfl

/-- The numbers from `lo` up to `hi` are those of the parts of the trees `es` and of `loose` names
besides. Subexpressions come before what contains them, and trees in the order of the list. -/
inductive Fills (a : Arena) : ℕ → List Tree → ℕ → ℕ → Prop
  | nil {lo} : Fills a lo [] lo 0
  | loose {lo es hi k} (name : a.IsName lo) (others : Fills a (lo + 1) es hi k) :
      Fills a lo es hi (k + 1)
  | cons {lo id l shape es hi k m} (found : a.get? id = some ⟨shape.map Tree.id, l⟩)
      (inner : Fills a lo shape.children id k) (others : Fills a (id + 1) es hi m) :
      Fills a lo (.node id l shape :: es) hi (k + m)

/-- Each of the trees `es` ends a run of its own, in which all its parts are, and the runs follow
one another from `lo` up to `hi`. -/
inductive FillsInTurn (a : Arena) : ℕ → List Tree → ℕ → ℕ → Prop
  | nil {lo} : FillsInTurn a lo [] lo 0
  | cons {lo e es hi k m} (first : a.Fills lo [e] (e.id + 1) k)
      (others : FillsInTurn a (e.id + 1) es hi m) : FillsInTurn a lo (e :: es) hi (k + m)

variable {a b : Arena} {lo mid hi k m : ℕ} {es fs : List Tree}

namespace Fills

/-- The parts of the trees have numbers of their own. -/
lemma laid (h : a.Fills lo es hi k) : Tree.Laid lo es hi := by
  induction h with
  | nil => exact .nil le_rfl
  | loose _ _ ih => exact ih.mono (Nat.le_succ _)
  | cons _ _ _ inner others => exact .cons inner others

/-- The trees are stored. -/
lemma stores (h : a.Fills lo es hi k) : ∀ e ∈ es, a.Stores e := by
  induction h with
  | nil => simp
  | loose _ _ ih => exact ih
  | @cons _ _ _ shape _ _ _ _ found hinner _ inner others =>
      have hbelow : ∀ t ∈ shape.children, t.id < _ := fun t ht => (hinner.laid.bounds ht (.self t)).2
      intro e he
      rcases List.mem_cons.mp he with rfl | he
      · exact .node found hbelow inner
      · exact others e he

lemma mono (h : a.Fills lo es hi k) (hab : a.Extends b) : b.Fills lo es hi k := by
  induction h with
  | nil => exact .nil
  | loose name _ ih =>
      obtain ⟨n, l, hfound⟩ := name
      exact .loose ⟨n, l, hab _ _ hfound⟩ ih
  | cons found _ _ inner others => exact .cons (hab _ _ found) inner others

/-- One run after another is a run of both. -/
lemma append (h : a.Fills lo es mid k) (h' : a.Fills mid fs hi m) :
    a.Fills lo (es ++ fs) hi (k + m) := by
  induction h with
  | nil => rwa [Nat.zero_add]
  | loose name _ ih =>
      rw [Nat.add_right_comm]
      exact .loose name (ih h')
  | cons found inner _ _ ih =>
      rw [Nat.add_assoc]
      exact .cons found inner (ih h')

/-- An expression is stored after its subexpressions. -/
lemma node {id : NodeId} {l : Location} {shape : Shape Tree} (h : a.Fills lo shape.children id k)
    (found : a.get? id = some ⟨shape.map Tree.id, l⟩) :
    a.Fills lo [.node id l shape] (id + 1) k :=
  .cons found h .nil

/-- A name at the front may be left out of the trees. -/
lemma loosen {id : NodeId} {l : Location} {name : String}
    (h : a.Fills lo (.node id l (.var name) :: es) hi k) : a.Fills lo es hi (k + 1) := by
  generalize htrees : .node id l (.var name) :: es = ts at h
  induction h with
  | nil => cases htrees
  | loose hname _ ih => exact .loose hname (ih htrees)
  | @cons lo _ _ _ _ _ k m found inner others ih =>
      cases htrees
      rw [Nat.add_assoc]
      exact inner.append (.loose ⟨name, l, found⟩ others)

end Fills

/-! ### Each number once -/

/-- The numbers from `lo` up to `hi`. -/
def span (lo hi : ℕ) : List ℕ := List.range' lo (hi - lo)

@[simp] lemma mem_span {i : ℕ} : i ∈ span lo hi ↔ lo ≤ i ∧ i < hi := by
  rw [span, List.mem_range'_1]
  omega

lemma span_self (lo : ℕ) : span lo lo = [] := by simp [span]

lemma span_cons (h : lo < hi) : span lo hi = lo :: span (lo + 1) hi := by
  rw [span, span, show hi - lo = hi - (lo + 1) + 1 by omega, List.range'_succ]

lemma span_append (h : lo ≤ mid) (h' : mid ≤ hi) : span lo hi = span lo mid ++ span mid hi := by
  rw [span, span, span, show hi - lo = (mid - lo) + (hi - mid) by omega, ← List.range'_append_1,
    show lo + (mid - lo) = mid by omega]

lemma span_zero (n : ℕ) : span 0 n = List.range n := (List.range_eq_range' ..).symm

lemma nodup_span (lo hi : ℕ) : (span lo hi).Nodup := List.nodup_range'

/-- All numbers that occur: those of the subexpressions of stored expressions from `lo` up to `hi`,
and those of the trees `es`. -/
def occurring (a : Arena) (lo : ℕ) (es : List Tree) (hi : ℕ) : List NodeId :=
  (span lo hi).flatMap a.childrenOf ++ es.map Tree.id

/-- **Each number once.** In a run that some trees fill, every number occurs once, as that of a
subexpression or of one of the trees, or else it is one of the loose names; and what occurs belongs
to a part of the trees. -/
lemma Fills.exists_loose (h : a.Fills lo es hi k) :
    ∃ loose : List NodeId, loose.length = k ∧ (∀ i ∈ loose, a.IsName i) ∧
      (a.occurring lo es hi ++ loose).Perm (span lo hi) ∧
      ∀ i ∈ span lo hi, (∃ e ∈ es, ∃ u, e.Contains u ∧ u.id = i) ∨ i ∈ loose := by
  induction h with
  | nil => exact ⟨[], rfl, by simp, by simp [occurring, span_self], by simp⟩
  | @loose lo es hi k name others ih =>
      obtain ⟨loose, hlength, hnames, hperm, hparts⟩ := ih
      have hlt : lo < hi := others.laid.le
      refine ⟨lo :: loose, by rw [List.length_cons, hlength], ?_, ?_, fun i hi => ?_⟩
      · simpa using ⟨name, hnames⟩
      · rw [span_cons hlt, occurring, span_cons hlt, List.flatMap_cons, name.childrenOf_eq]
        exact List.perm_middle.trans (hperm.cons lo)
      · rw [span_cons hlt] at hi
        rcases List.mem_cons.mp hi with rfl | hi
        · exact .inr (.head _)
        · exact (hparts i hi).imp_right (.tail _)
  | @cons lo id l shape es hi k m found hinner hothers inner others =>
      obtain ⟨loose, hlength, hnames, hperm, hparts⟩ := inner
      obtain ⟨loose', hlength', hnames', hperm', hparts'⟩ := others
      have hlo : lo ≤ id := hinner.laid.le
      have hhi : id < hi := hothers.laid.le
      have hspan : span lo hi = span lo id ++ id :: span (id + 1) hi := by
        rw [span_append hlo hhi.le, span_cons hhi]
      have hchildren : a.childrenOf id = shape.children.map Tree.id := by
        rw [childrenOf_of_get? found, Shape.children_map]
      refine ⟨loose ++ loose', by rw [List.length_append, hlength, hlength'], ?_, ?_, ?_⟩
      · intro i hi
        exact (List.mem_append.mp hi).elim (hnames i) (hnames' i)
      · -- the numbers of the subexpressions join what occurs below, and the own number what follows
        have hoccurring : a.occurring lo (.node id l shape :: es) hi
            = a.occurring lo shape.children id ++
              ((span (id + 1) hi).flatMap a.childrenOf ++ id :: es.map Tree.id) := by
          simp only [occurring, hspan, List.flatMap_append, List.flatMap_cons, hchildren,
            List.map_cons, Tree.id, List.append_assoc]
        have hlater : ((span (id + 1) hi).flatMap a.childrenOf ++ id :: es.map Tree.id).Perm
            (id :: a.occurring (id + 1) es hi) := List.perm_middle
        have hjoined : (a.occurring lo shape.children id ++ (id :: a.occurring (id + 1) es hi) ++
            (loose ++ loose')).Perm ((a.occurring lo shape.children id ++ loose) ++
              (id :: (a.occurring (id + 1) es hi ++ loose'))) := by
          rw [List.perm_iff_count]
          intro i
          simp only [List.count_append, List.count_cons]
          omega
        rw [hoccurring, hspan]
        exact (((hlater.append_left _).append_right _).trans hjoined).trans
          (hperm.append (hperm'.cons id))
      · intro i hi
        rw [hspan] at hi
        rcases List.mem_append.mp hi with hi | hi
        · rcases hparts i hi with ⟨e, he, u, hu, hid⟩ | hloose
          · exact .inl ⟨_, .head _, u, .child he hu, hid⟩
          · exact .inr (List.mem_append_left _ hloose)
        · rcases List.mem_cons.mp hi with rfl | hi
          · exact .inl ⟨_, .head _, _, .self _, rfl⟩
          · rcases hparts' i hi with ⟨e, he, u, hu, hid⟩ | hloose
            · exact .inl ⟨e, .tail _ he, u, hu, hid⟩
            · exact .inr (List.mem_append_right _ hloose)

/-! ### Trees in turn -/

/-- Each of the numbers `roots` has all that is below it in a run that it ends, and nothing else is
in this run but numbers that are `apart`. The runs follow one another from `lo` up to `hi`. -/
def Consecutive (a : Arena) (apart : ℕ → Prop) : ℕ → List ℕ → ℕ → Prop
  | lo, [], hi => lo = hi
  | lo, root :: roots, hi =>
    (∀ i : ℕ, a.Reaches root i → lo ≤ i ∧ i ≤ root) ∧
      (∀ i : ℕ, lo ≤ i → i ≤ root → a.Reaches root i ∨ apart i) ∧
      Consecutive a apart (root + 1) roots hi

/-- The parts of a stored tree are below its number. -/
lemma Stores.reaches {t u : Tree} (h : a.Stores t) (hu : t.Contains u) : a.Reaches t.id u.id := by
  induction hu with
  | self => exact .refl
  | @child id l shape c u hc _ ih =>
      cases h with
      | node found _ children =>
          have hchild : a.Child id c.id :=
            ⟨_, found, by rw [Shape.children_map]; exact List.mem_map_of_mem hc⟩
          exact .head hchild (ih (children c hc))

/-- All that is below the number of a stored tree belongs to a part of the tree. -/
lemma Stores.exists_contains {t : Tree} {i : NodeId} (h : a.Stores t) (hi : a.Reaches t.id i) :
    ∃ u, t.Contains u ∧ u.id = i := by
  have hcomplete : (a.tree t.id).Complete := by
    rw [h.tree_eq]
    exact h.complete
  obtain ⟨-, u, hu, hid⟩ := exists_contains_of_reaches hi hcomplete
  exact ⟨u, h.tree_eq ▸ hu, hid⟩

namespace FillsInTurn

lemma fills (h : a.FillsInTurn lo es hi k) : a.Fills lo es hi k := by
  induction h with
  | nil => exact .nil
  | cons first _ ih => exact first.append ih

/-- The runs of the trees hold nothing else but loose names, each of which is one of `apart`. -/
lemma consecutive (h : a.FillsInTurn lo es hi k) {apart : ℕ → Prop}
    (hapart : ∀ i : ℕ, lo ≤ i → i < hi → (¬ ∃ e ∈ es, ∃ u, e.Contains u ∧ u.id = i) → apart i) :
    a.Consecutive apart lo (es.map Tree.id) hi := by
  induction h with
  | nil => rfl
  | @cons lo e es hi k m first others ih =>
      have hstored : a.Stores e := first.stores e (List.mem_singleton_self e)
      have hlo : lo ≤ e.id + 1 := first.laid.le
      have hhi : e.id + 1 ≤ hi := others.fills.laid.le
      refine ⟨fun i hbelow => ?_, fun i habove hbelow => ?_, ih fun i habove hbelow hnone => ?_⟩
      · obtain ⟨u, hu, rfl⟩ := hstored.exists_contains hbelow
        have hbounds := first.laid.bounds (List.mem_singleton_self e) hu
        exact ⟨hbounds.1, Nat.le_of_lt_succ hbounds.2⟩
      · by_cases hpart : ∃ u, e.Contains u ∧ u.id = i
        · obtain ⟨u, hu, rfl⟩ := hpart
          exact .inl (hstored.reaches hu)
        · refine .inr (hapart i habove (Nat.lt_of_le_of_lt hbelow hhi) ?_)
          rintro ⟨f, hf, u, hu, rfl⟩
          rcases List.mem_cons.mp hf with rfl | hf
          · exact hpart ⟨u, hu, rfl⟩
          · have hlater := (others.fills.laid.bounds hf hu).1
            exact absurd hbelow (Nat.not_le_of_lt hlater)
      · refine hapart i (hlo.trans habove) hbelow ?_
        rintro ⟨f, hf, u, hu, rfl⟩
        rcases List.mem_cons.mp hf with rfl | hf
        · have hearlier := (first.laid.bounds (List.mem_singleton_self f) hu).2
          exact absurd habove (Nat.not_le_of_lt hearlier)
        · exact hnone ⟨f, hf, u, hu, rfl⟩

end FillsInTurn

end Arena

end Fern
