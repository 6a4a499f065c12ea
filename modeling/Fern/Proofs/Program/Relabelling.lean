import Mathlib.Tactic
import Fern.Proofs.Parsing.Storage
import Fern.Program

/-!
The same expressions under other numbers and at other places.

* `Relabelling`: other numbers and places; `Relabelling.ofNumbers` and `Relabelling.ofPlaces` change
  one of the two.
* `Tree.relabel`: an expression under other numbers and at other places.
* `Tree.unnumbered`: an expression without its numbers. `Tree.Unshared`: trees with numbers of their
  own. `Tree.Unshared.exists_renumbering`: if two such are the same without their numbers, then they
  are the same up to a one-to-one change of numbers.
* `Program.relocate`: a program at other places, the bodies of which are the relabelled bodies.
-/

namespace Fern

/-- Other numbers and places for expressions. -/
structure Relabelling where
  number : NodeId → NodeId
  place : Location → Location

namespace Relabelling

/-- Other numbers at the same places. -/
def ofNumbers (f : NodeId → NodeId) : Relabelling := ⟨f, fun l => l⟩

/-- Other places under the same numbers. -/
def ofPlaces (g : Location → Location) : Relabelling := ⟨fun i => i, g⟩

/-- The same numbers and places. -/
def same : Relabelling := ⟨fun i => i, fun l => l⟩

end Relabelling

/-- Forms of one kind are the same if their subexpressions are. -/
lemma Shape.eq_of_children {ε : Type} {s s' : Shape ε}
    (hform : (s.map fun _ => ()) = s'.map fun _ => ()) (hchildren : s.children = s'.children) :
    s = s' := by
  have htoList : ∀ o o' : Option ε, o.toList = o'.toList ↔ o = o' := by
    rintro (_ | a) (_ | b) <;> simp
  cases s <;> cases s' <;> simp_all [Shape.map, Shape.children]

namespace Tree

variable (r : Relabelling)

mutual

/-- The expression under other numbers and at other places. -/
def relabel : Tree → Tree
  | missing id => missing (r.number id)
  | node id l shape => node (r.number id) (r.place l) (relabelShape shape)

/-- The form with relabelled subexpressions. -/
def relabelShape : Shape Tree → Shape Tree
  | .binary operator left right => .binary operator (relabel left) (relabel right)
  | .unary operator operand => .unary operator (relabel operand)
  | .cond condition thenBlock elseBlock =>
    .cond (relabel condition) (relabel thenBlock) (relabelOption elseBlock)
  | .binding name stated value => .binding name stated (relabel value)
  | .block statements => .block (relabelList statements)
  | .jump operator value => .jump operator (relabelOption value)
  | .call callee arguments => .call callee (relabelList arguments)
  | .var name => .var name
  | .subscript operand index => .subscript (relabel operand) (relabel index)
  | .boolean value => .boolean value
  | .number value isFloat => .number value isFloat
  | .string value => .string value
  | .char value => .char value

/-- The relabelled expression, if there is one. -/
def relabelOption : Option Tree → Option Tree
  | none => none
  | some t => some (relabel t)

/-- The relabelled expressions. -/
def relabelList : List Tree → List Tree
  | [] => []
  | t :: ts => relabel t :: relabelList ts

end

@[simp] lemma relabelOption_eq (t : Option Tree) : relabelOption r t = t.map (relabel r) := by
  cases t <;> rfl

@[simp] lemma relabelList_eq (ts : List Tree) : relabelList r ts = ts.map (relabel r) := by
  induction ts with
  | nil => rfl
  | cons t ts ih => simp [relabelList, ih]

/-- A relabelled expression is its form over relabelled subexpressions. -/
lemma relabel_node (id : NodeId) (l : Location) (shape : Shape Tree) :
    (node id l shape).relabel r = node (r.number id) (r.place l) (shape.map (relabel r)) := by
  cases shape <;> simp [relabel, relabelShape, Shape.map]

@[simp] lemma id_relabel (t : Tree) : (t.relabel r).id = r.number t.id := by
  cases t <;> rfl

@[simp] lemma isReturn_relabel (t : Tree) : (t.relabel r).isReturn = t.isReturn := by
  cases t with
  | missing id => rfl
  | node id l shape =>
      cases shape with
      | jump operator value => cases operator <;> rfl
      | _ => rfl

@[simp] lemma name?_relabel (t : Tree) : (t.relabel r).name? = t.name? := by
  cases t with
  | missing id => rfl
  | node id l shape => cases shape <;> rfl

@[simp] lemma endsWithBlock_relabel (t : Tree) : (t.relabel r).endsWithBlock = t.endsWithBlock := by
  cases t with
  | missing id => rfl
  | node id l shape => cases shape <;> rfl

/-- The same labels make the same expression. -/
@[simp] lemma relabel_same (t : Tree) : t.relabel .same = t := by
  induction t using childInduction with
  | missing id => rfl
  | node id l shape ih => rw [relabel_node, Shape.map_congr ih, Shape.map_self]; rfl

/-- Only the labels of the parts matter. -/
lemma relabel_congr {r r' : Relabelling} {t : Tree}
    (h : ∀ u, t.Contains u → r.number u.id = r'.number u.id) (hplace : r.place = r'.place) :
    t.relabel r = t.relabel r' := by
  induction t using childInduction with
  | missing id => exact congrArg missing (h _ (.self _))
  | node id l shape ih =>
      have hshape : shape.map (relabel r) = shape.map (relabel r') :=
        Shape.map_congr fun c hc => ih c hc fun u hu => h u (.child hc hu)
      have hid : r.number id = r'.number id := h _ (.self _)
      rw [relabel_node, relabel_node, hshape, hplace, hid]

/-- Relabelled expressions have relabelled parts. -/
lemma Contains.relabel {t u : Tree} (h : t.Contains u) :
    (t.relabel r).Contains (u.relabel r) := by
  induction h with
  | self t => exact .self _
  | child hc _ ih =>
      rw [relabel_node]
      exact .child (by rw [Shape.children_map]; exact List.mem_map_of_mem hc) ih

/-- From a relabelled expression no more is missing than before. -/
lemma Complete.relabel {t : Tree} (h : t.Complete) : (t.relabel r).Complete := by
  induction t using childInduction with
  | missing id => exact absurd h (not_complete_missing id)
  | node id l shape ih =>
      rw [relabel_node]
      refine complete_node fun c hc => ?_
      rw [Shape.children_map] at hc
      obtain ⟨d, hd, rfl⟩ := List.mem_map.mp hc
      exact ih d hd (h.child hd)

/-! ### Expressions without numbers -/

/-- The expression without the numbers of its parts. -/
def unnumbered (t : Tree) : Tree := t.relabel (.ofNumbers fun _ => 0)

/-- The number `i` belongs to a part of one of the trees `es`. -/
def HasNumber (es : List Tree) (i : NodeId) : Prop :=
  ∃ e ∈ es, ∃ u, e.Contains u ∧ u.id = i

lemma hasNumber_singleton_iff {e : Tree} {i : NodeId} :
    HasNumber [e] i ↔ ∃ u, e.Contains u ∧ u.id = i := by
  simp [HasNumber]

lemma hasNumber_cons {e : Tree} {es : List Tree} {i : NodeId} :
    HasNumber (e :: es) i ↔ HasNumber [e] i ∨ HasNumber es i := by
  simp [HasNumber]

/-- The numbers of an expression are its own and those of its subexpressions. -/
lemma hasNumber_node {id : NodeId} {l : Location} {shape : Shape Tree} {i : NodeId} :
    HasNumber [node id l shape] i ↔ id = i ∨ HasNumber shape.children i := by
  rw [hasNumber_singleton_iff]
  constructor
  · rintro ⟨u, hu, rfl⟩
    cases hu with
    | self => exact .inl rfl
    | child hc hu => exact .inr ⟨_, hc, u, hu, rfl⟩
  · rintro (rfl | ⟨c, hc, u, hu, rfl⟩)
    · exact ⟨_, .self _, rfl⟩
    · exact ⟨u, .child hc hu, rfl⟩

lemma map_relabel_congr {f f' : NodeId → NodeId} {es : List Tree}
    (h : ∀ i, HasNumber es i → f i = f' i) :
    es.map (relabel (.ofNumbers f)) = es.map (relabel (.ofNumbers f')) :=
  List.map_congr_left fun e he => relabel_congr (fun u hu => h _ ⟨e, he, u, hu, rfl⟩) rfl

/-- Changed numbers are those that the change gives. -/
lemma HasNumber.relabel {f : NodeId → NodeId} {es : List Tree} {i : NodeId} (h : HasNumber es i) :
    HasNumber (es.map (Tree.relabel (.ofNumbers f))) (f i) := by
  obtain ⟨e, he, u, hu, rfl⟩ := h
  exact ⟨_, List.mem_map_of_mem he, _, hu.relabel _, id_relabel _ _⟩

/-- No part of the trees is missing, and no number belongs to two places in them. -/
inductive Unshared : List Tree → Prop
  | nil : Unshared []
  | cons {id l shape es} (inner : Unshared shape.children) (others : Unshared es)
      (own : ¬HasNumber shape.children id)
      (apart : ∀ i, HasNumber [.node id l shape] i → ¬HasNumber es i) :
      Unshared (.node id l shape :: es)

/-- Trees with numbers in order have numbers of their own. -/
lemma Laid.unshared {lo hi : ℕ} {es : List Tree} (h : Laid lo es hi) : Unshared es := by
  induction h with
  | nil => exact .nil
  | @cons lo id l shape es hi inner others ih ihes =>
      refine .cons ih ihes ?_ ?_
      · rintro ⟨c, hc, u, hu, rfl⟩
        exact absurd (inner.bounds hc hu).2 (lt_irrefl _)
      · rintro i ⟨e, he, u, hu, rfl⟩ ⟨c, hc, v, hv, hid⟩
        obtain rfl := List.mem_singleton.mp he
        have hbelow := (node inner).bounds (List.mem_singleton_self _) hu
        exact absurd (hbelow.2.trans_le (others.bounds hc hv).1) (hid ▸ lt_irrefl _)

/-- The trees have no numbers in common. -/
def Apart (es : List Tree) : Prop :=
  es.Pairwise fun e e' => ∀ i, HasNumber [e] i → ¬HasNumber [e'] i

lemma hasNumber_of_mem {e : Tree} {es : List Tree} {i : NodeId} (he : e ∈ es)
    (h : HasNumber [e] i) : HasNumber es i :=
  ⟨e, he, hasNumber_singleton_iff.mp h⟩

lemma Unshared.apart {es : List Tree} (h : Unshared es) : Apart es := by
  induction h with
  | nil => exact .nil
  | cons _ _ _ apart _ ih =>
      exact .cons (fun e he i hi hi' => apart i hi (hasNumber_of_mem he hi')) ih

/-- Each of the trees has numbers of its own. -/
lemma Unshared.singleton {es : List Tree} (h : Unshared es) {e : Tree} (he : e ∈ es) :
    Unshared [e] := by
  induction h with
  | nil => cases he
  | cons inner _ own _ _ ih =>
      rcases List.mem_cons.mp he with rfl | he
      · exact .cons inner .nil own fun _ _ => by rintro ⟨_, ⟨⟩, _⟩
      · exact ih he

/-- A change of numbers that gives every place a number of its own is one-to-one. -/
lemma Unshared.injOn {f : NodeId → NodeId} {es : List Tree}
    (h : Unshared (es.map (relabel (.ofNumbers f)))) : Set.InjOn f {i | HasNumber es i} := by
  generalize hes : es.map (relabel (.ofNumbers f)) = fs at h
  induction h generalizing es with
  | nil =>
      obtain rfl := List.map_eq_nil_iff.mp hes
      rintro i ⟨_, ⟨⟩, _⟩
  | @cons id' l' shape' es' inner others own apart ih ihes =>
      obtain ⟨e, es, rfl, he, rfl⟩ := List.map_eq_cons_iff.mp hes
      cases e with
      | missing id => cases he
      | node id l shape =>
      have hhead : ∀ i, HasNumber [node id l shape] i → HasNumber [node id' l' shape'] (f i) :=
        fun i hi => he ▸ (hi.relabel : HasNumber [(node id l shape).relabel (.ofNumbers f)] (f i))
      have htail : ∀ i, HasNumber es i → HasNumber (es.map (relabel (.ofNumbers f))) (f i) :=
        fun i hi => hi.relabel
      rw [relabel_node, Tree.node.injEq] at he
      obtain ⟨hid, -, rfl⟩ := he
      replace hid : f id = id' := hid
      have hchild : ∀ i, HasNumber shape.children i →
          HasNumber (shape.map (relabel (.ofNumbers f))).children (f i) := by
        intro i hi
        rw [Shape.children_map]
        exact hi.relabel
      intro i hi j hj hij
      rcases hasNumber_cons.mp hi with hi | hi <;> rcases hasNumber_cons.mp hj with hj | hj
      · rcases hasNumber_node.mp hi with rfl | hi <;> rcases hasNumber_node.mp hj with rfl | hj
        · rfl
        · exact absurd (hchild j hj) (hij ▸ hid ▸ own)
        · exact absurd (hchild i hi) (hij ▸ hid ▸ own)
        · exact ih (Shape.children_map _ _).symm hi hj hij
      · exact absurd (hij ▸ htail j hj) (apart _ (hhead i hi))
      · exact absurd (hij ▸ htail i hi) (apart _ (hhead j hj))
      · exact ihes rfl hi hj hij

/-- Trees with numbers of their own that are the same as others without numbers become these when
their numbers are changed. -/
lemma Unshared.exists_relabel {es es' : List Tree} (h : Unshared es)
    (hsame : es.map unnumbered = es'.map unnumbered) :
    ∃ f : NodeId → NodeId, es' = es.map (relabel (.ofNumbers f)) := by
  classical
  induction h generalizing es' with
  | nil => exact ⟨fun i => i, List.map_eq_nil_iff.mp hsame.symm⟩
  | @cons id l shape es inner others own apart ih ihes =>
      obtain ⟨e', es', rfl, he', hothers⟩ := List.map_eq_cons_iff.mp hsame.symm
      cases e' with
      | missing => cases he'
      | node id' l' shape' =>
      rw [unnumbered, unnumbered, relabel_node, relabel_node, Tree.node.injEq] at he'
      obtain ⟨-, hl, hshape⟩ := he'
      have hchildren := congrArg Shape.children hshape.symm
      rw [Shape.children_map, Shape.children_map] at hchildren
      obtain ⟨f₁, hf₁⟩ := ih hchildren
      obtain ⟨f₂, hf₂⟩ := ihes hothers.symm
      -- the number of the first tree, those below it, and those of the others
      set f : NodeId → NodeId := fun i =>
        if i = id then id' else if HasNumber shape.children i then f₁ i else f₂ i with hf
      have hinner : ∀ i, HasNumber shape.children i → f₁ i = f i := by
        intro i hi
        have hne : i ≠ id := fun h => own (h ▸ hi)
        simp only [hf, if_neg hne, if_pos hi]
      have houter : ∀ i, HasNumber es i → f₂ i = f i := by
        intro i hi
        have hfirst : ¬HasNumber [node id l shape] i := fun h => apart i h hi
        rw [hasNumber_node, not_or] at hfirst
        simp only [hf, if_neg (Ne.symm hfirst.1), if_neg hfirst.2]
      have hshape' : shape' = shape.map (relabel (.ofNumbers f)) := by
        refine Shape.eq_of_children ?_ ?_
        · have hform := congrArg (Shape.map fun _ => ()) hshape
          simp only [Shape.map_map] at hform ⊢
          exact hform
        · rw [hf₁, Shape.children_map]
          exact map_relabel_congr hinner
      refine ⟨f, ?_⟩
      rw [List.map_cons, relabel_node, ← hshape', hf₂, map_relabel_congr houter]
      exact congrArg (· :: _) (congrArg₂ (Tree.node · · shape') (if_pos rfl).symm hl)

/-- **Renumbering.** Trees with numbers of their own that are the same without their numbers are the
same up to a one-to-one change of numbers. -/
lemma Unshared.exists_renumbering {es es' : List Tree} (h : Unshared es) (h' : Unshared es')
    (hsame : es.map unnumbered = es'.map unnumbered) :
    ∃ f : NodeId → NodeId, es' = es.map (relabel (.ofNumbers f)) ∧
      Set.InjOn f {i | HasNumber es i} := by
  obtain ⟨f, rfl⟩ := h.exists_relabel hsame
  exact ⟨f, rfl, h'.injOn⟩

end Tree

/-! ### Programs at other places -/

section Places

variable (g : Location → Location)

/-- The parameter at another place. -/
def Parameter.relocate (p : Parameter) : Parameter := { p with location := g p.location }

/-- The prototype with its parameters at other places. -/
def Prototype.relocate (p : Prototype) : Prototype :=
  { p with parameters := p.parameters.map (Parameter.relocate g), location := g p.location }

lemma Prototype.relocate_same (p : Prototype) : p.relocate (fun l => l) = p := by
  obtain ⟨name, parameters, returnType, l⟩ := p
  exact congrArg (mk name · returnType l) (List.map_id' _)

/-- The function at another place. -/
def Function.relocate (f : Function) : Function :=
  { f with prototype := f.prototype.relocate g }

/-- The stored expression at another place. -/
def Node.relocate (n : Node) : Node := { n with location := g n.location }

/-- The stored expressions at other places. -/
def Arena.relocate (a : Arena) : Arena := ⟨a.nodes.map (Node.relocate g)⟩

/-- The program at other places. -/
def Program.relocate (p : Program) : Program where
  arena := p.arena.relocate g
  declarations := p.declarations.map (Prototype.relocate g)
  functions := p.functions.map (Function.relocate g)

lemma Arena.relocate_empty : empty.relocate g = empty := congrArg Arena.mk Array.map_empty

@[simp] lemma Arena.size_relocate (a : Arena) : (a.relocate g).size = a.size :=
  Array.size_map

lemma Arena.get?_relocate (a : Arena) (id : NodeId) :
    (a.relocate g).get? id = (a.get? id).map (Node.relocate g) :=
  Array.getElem?_map

lemma Arena.add_relocate (a : Arena) (shape : Shape NodeId) (l : Location) :
    (a.add shape l).relocate g = (a.relocate g).add shape (g l) :=
  congrArg Arena.mk Array.map_push

lemma Arena.unfold_relocate (a : Arena) (depth : ℕ) (id : NodeId) :
    (a.relocate g).unfold depth id = (a.unfold depth id).relabel (.ofPlaces g) := by
  induction depth generalizing id with
  | zero => rfl
  | succ depth ih =>
      simp only [unfold, get?_relocate]
      cases a.get? id with
      | none => rfl
      | some n =>
          rw [Option.map_some, Tree.relabel_node, Shape.map_map]
          exact congrArg (Tree.node id (g n.location)) (Shape.map_congr fun i _ => ih i)

/-- The body of a function at another place is its relabelled body. -/
lemma Program.body_relocate (p : Program) (f : Function) :
    (p.relocate g).body (f.relocate g) = (p.body f).relabel (.ofPlaces g) := by
  refine Eq.trans ?_ (p.arena.unfold_relocate g p.arena.size f.body)
  exact congrArg (fun n => (p.arena.relocate g).unfold n f.body) (p.arena.size_relocate g)

end Places

end Fern
