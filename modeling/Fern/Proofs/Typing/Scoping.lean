import Fern.Proofs.Typing.Declarations
import Fern.Proofs.Typing.Table

/-!
What a run of the checker does to the scopes, whatever it complains of.

* `Arena.ReachesOpenly`: what is below an expression without a block in between.
* `judge_depth`, `judge_block_scopes`, `judge_localLookup`: a run opens as many scopes as it closes;
  a block leaves all scopes as they were; any other expression binds, in the innermost scope, the
  names that it declares there and no others.
* `Framed`: what a run on an expression leaves as it was, and what it may change.
* `judge_framed`: **the frame of a run**, for an expression in any state, and for a function.
-/

namespace Fern

/-! ### Names that an expression declares -/

namespace Tree

lemma mem_declaredBy {ts : List Tree} {name : String} :
    name ∈ declaredBy ts ↔ ∃ t ∈ ts, name ∈ t.declared := by
  induction ts with
  | nil => simp [declaredBy]
  | cons t ts ih => simp [declaredBy, ih]

/-- What declares a name is a binding of it, or has a part that declares the name. A block declares
none. -/
lemma mem_declared_node {id : NodeId} {l : Location} {shape : Shape Tree} {name : String} :
    name ∈ (node id l shape).declared ↔ shape.isBlock = false ∧
      ((∃ c ∈ shape.children, name ∈ c.declared) ∨
        ∃ stated value, shape = .binding name stated value) := by
  cases shape with
  | cond _ _ elseBlock => cases elseBlock <;> simp [declared, Shape.isBlock, Shape.children]
  | jump _ value => cases value <;> simp [declared, Shape.isBlock, Shape.children]
  | call _ arguments => simp [declared, Shape.isBlock, Shape.children, mem_declaredBy]
  | binding n _ value => simp [declared, Shape.isBlock, Shape.children, eq_comm]
  | _ => simp [declared, Shape.isBlock, Shape.children]

end Tree

namespace Arena

variable {a : Arena} {id i : NodeId} {name : String}

/-- The expression `child` is a subexpression of the one stored under `parent`, which is no
block. -/
def OpenChild (a : Arena) (parent child : NodeId) : Prop :=
  a.Child parent child ∧ a.isBlock parent = false

/-- An expression openly reaches itself, and all that is below it but not below a block. -/
def ReachesOpenly (a : Arena) : NodeId → NodeId → Prop := Relation.ReflTransGen a.OpenChild

/-- A binding of the name is stored under the number. -/
def Binds (a : Arena) (name : String) (i : NodeId) : Prop :=
  ∃ stated value l, a.get? i = some ⟨.binding name stated value, l⟩

lemma isBlock_of_get? {node : Node} (h : a.get? id = some node) :
    a.isBlock id = node.shape.isBlock := by
  rw [isBlock, h, Option.any_some]

lemma isBlock_map {ε δ : Type} (f : ε → δ) (shape : Shape ε) :
    (shape.map f).isBlock = shape.isBlock := by
  cases shape <;> rfl

/-- The parts of the tree of a number are below that number. -/
lemma reaches_of_contains {depth : ℕ} {u : Tree} (h : (a.unfold depth id).Contains u) :
    a.Reaches id u.id := by
  induction depth generalizing id with
  | zero =>
      cases h
      exact .refl
  | succ depth ih =>
      cases hid : a.get? id with
      | none =>
          rw [unfold, hid] at h
          cases h
          exact .refl
      | some node =>
          rw [unfold_succ_of_get? hid] at h
          cases h with
          | self => exact .refl
          | child hc hu =>
              rw [Shape.children_map] at hc
              obtain ⟨child, hmem, rfl⟩ := List.mem_map.mp hc
              exact .head ⟨node, hid, hmem⟩ (ih hu)

/-- What the tree of a number declares is bound below that number, and not below a block. -/
lemma exists_binds_of_mem_declared {depth : ℕ} (h : name ∈ (a.unfold depth id).declared) :
    ∃ i, a.ReachesOpenly id i ∧ a.Binds name i := by
  induction depth generalizing id with
  | zero => simp [unfold, Tree.declared] at h
  | succ depth ih =>
      cases hid : a.get? id with
      | none => simp [unfold, hid, Tree.declared] at h
      | some node =>
          rw [unfold_succ_of_get? hid, Tree.mem_declared_node, isBlock_map] at h
          obtain ⟨hblock, ⟨c, hc, hname⟩ | ⟨stated, value, hshape⟩⟩ := h
          · rw [Shape.children_map] at hc
            obtain ⟨child, hmem, rfl⟩ := List.mem_map.mp hc
            obtain ⟨i, hi, hbinds⟩ := ih hname
            have hchild : a.OpenChild id child :=
              ⟨⟨node, hid, hmem⟩, (isBlock_of_get? hid).trans hblock⟩
            exact ⟨i, .head hchild hi, hbinds⟩
          · obtain ⟨shape, l⟩ := node
            cases shape with
            | binding n stated value =>
                cases hshape
                exact ⟨id, .refl, stated, value, l, hid⟩
            | _ => cases hshape

end Arena

namespace Typing

variable {e : Tree} {s s' : Checker} {t : Ty} {name : String}

/-! ### Scopes during a run -/

/-- As many scopes are open after a run as before. -/
lemma judge_depth (h : judge e s = .ok (t, s')) : s'.scopes.depth = s.scopes.depth := by
  have hstep : Stepwise Any Any fun s s' => s'.scopes.depth = s.scopes.depth :=
    { refl := fun _ => rfl
      trans := fun h h' => h'.trans h
      typed := fun _ _ _ => rfl
      complained := fun _ _ => rfl
      bound := fun name t s => by
        rw [Checker.bound]
        cases s.scopes <;> rfl
      warned := fun _ b _ => by cases b <;> rfl
      block := fun {s s₁} h => by
        have hpop : s₁.closed.scopes.depth = s₁.scopes.depth - 1 := List.length_tail
        rw [hpop, h]
        exact Nat.add_sub_cancel _ 1 }
  exact judge_stepwise hstep e (fun _ _ => ⟨trivial, trivial⟩) s t s' h

/-- A block leaves all scopes as they were. -/
lemma judge_block_scopes {id : NodeId} {l : Location} {statements : List Tree}
    (h : judge (.node id l (.block statements)) s = .ok (t, s')) : s'.scopes = s.scopes := by
  obtain ⟨u, s₁, hs, -, rfl⟩ := judge_block_eq_ok.mp h
  exact (judgeStatements_kept hs).outer

/-- A name that is bound in the innermost scope changes what this says of itself only. -/
lemma localLookup_bind {other : String} (h : other ≠ name) (t : Ty) (Γ : Scopes Ty) :
    (Γ.bind other t).localLookup name = Γ.localLookup name := by
  cases Γ with
  | nil => rfl
  | cons bs Γ =>
      rw [Scopes.bind, Scopes.localLookup, Scopes.localLookup, Bindings.find?_set, if_neg h]

/-- A declaration changes what the innermost scope says of its own name only. -/
lemma localLookup_declaring {other : String} (h : other ≠ name) (t : Ty) (l : Location)
    (s : Checker) :
    (s.declaring other t l).scopes.localLookup name = s.scopes.localLookup name :=
  localLookup_bind h t s.scopes

lemma judgeArguments_localLookup {callee : String} {es : List Tree}
    (ih : ∀ x ∈ es, ∀ {s t s'}, judge x s = .ok (t, s') →
      s'.scopes.localLookup name = s.scopes.localLookup name) :
    ∀ {ps s b s'}, judgeArguments callee ps es s = .ok (b, s') →
      s'.scopes.localLookup name = s.scopes.localLookup name := by
  induction es with
  | nil =>
      intro ps s b s' h
      have hnil : judgeArguments callee ps [] s = .ok (true, s) := by cases ps <;> rfl
      cases hnil.symm.trans h
      rfl
  | cons e es ihes =>
      intro ps s b s' h
      cases ps with
      | nil =>
          cases h
          rfl
      | cons p ps =>
          obtain ⟨u, s₁, he, hes⟩ := judgeArguments_cons_eq_ok.mp h
          have hfirst := ih e List.mem_cons_self he
          split at hes
          · rw [hes.2]
            exact hfirst
          · have hothers := ihes (fun x hx => ih x (List.mem_cons_of_mem _ hx)) hes
            exact hothers.trans hfirst

/-- Whatever it complains of, a run on an expression binds no names in the innermost scope but those
that the expression declares there. -/
lemma judge_localLookup (hname : name ∉ e.declared) (h : judge e s = .ok (t, s')) :
    s'.scopes.localLookup name = s.scopes.localLookup name := by
  induction e using Tree.childInduction generalizing s t s' with
  | missing id =>
      rw [judge_missing] at h
      cases h
  | node id l shape ih =>
      by_cases hblock : shape.isBlock = true
      · -- a block may bind the name inside, and forgets it at its end
        cases shape with
        | block statements => rw [judge_block_scopes h]
        | _ => cases hblock
      rw [Tree.mem_declared_node, Bool.eq_false_iff, not_and] at hname
      obtain ⟨hparts, hown⟩ := not_or.mp (hname hblock)
      replace ih : ∀ c ∈ shape.children, ∀ {s t s'}, judge c s = .ok (t, s') →
          s'.scopes.localLookup name = s.scopes.localLookup name :=
        fun c hc _ _ _ hrun => ih c hc (fun hmem => hparts ⟨c, hc, hmem⟩) hrun
      clear hname hparts
      cases shape with
      | number =>
          obtain ⟨-, rfl⟩ := judge_number_eq_ok.mp h
          rfl
      | boolean =>
          obtain ⟨-, rfl⟩ := judge_boolean_eq_ok.mp h
          rfl
      | string =>
          obtain ⟨-, rfl⟩ := judge_string_eq_ok.mp h
          rfl
      | char =>
          obtain ⟨-, rfl⟩ := judge_char_eq_ok.mp h
          rfl
      | var n =>
          cases hlookup : s.scopes.lookup n with
          | some u =>
              obtain ⟨-, rfl⟩ := (judge_bound_eq_ok hlookup).mp h
              rfl
          | none =>
              obtain ⟨-, rfl⟩ := (judge_unbound_eq_ok hlookup).mp h
              rfl
      | binding n stated value =>
          obtain ⟨u, s₁, hv, -, rfl⟩ := judge_binding_eq_ok.mp h
          have hother : n ≠ name := by
            rintro rfl
            exact hown ⟨stated, value, rfl⟩
          have hvalue := ih value (by simp [Shape.children]) hv
          exact (localLookup_declaring hother u l _).trans hvalue
      | block => exact absurd rfl hblock
      | cond condition thenBlock elseBlock =>
          cases elseBlock with
          | none =>
              obtain ⟨c, s₁, hc, u, s₂, ht, -, rfl⟩ := judge_cond_eq_ok.mp h
              have hcondition := ih condition (by simp [Shape.children]) hc
              have hthen := ih thenBlock (by simp [Shape.children]) ht
              exact hthen.trans hcondition
          | some elseBlock =>
              obtain ⟨c, s₁, hc, u, s₂, ht, w, s₃, he, -, rfl⟩ := judge_condElse_eq_ok.mp h
              have hcondition := ih condition (by simp [Shape.children]) hc
              have hthen := ih thenBlock (by simp [Shape.children]) ht
              have helse := ih elseBlock (by simp [Shape.children]) he
              exact (helse.trans hthen).trans hcondition
      | binary operator left right =>
          obtain ⟨a, s₁, ha, b, s₂, hb, -, rfl⟩ := judge_binary_eq_ok.mp h
          have hleft := ih left (by simp [Shape.children]) ha
          have hright := ih right (by simp [Shape.children]) hb
          exact hright.trans hleft
      | unary operator operand =>
          obtain ⟨a, s₁, ha, -, rfl⟩ := judge_unary_eq_ok.mp h
          have hoperand := ih operand (by simp [Shape.children]) ha
          exact hoperand
      | jump operator value =>
          by_cases hop : operator = .returnWord
          · subst hop
            cases value with
            | none =>
                obtain ⟨-, rfl⟩ := judge_bareReturn_eq_ok.mp h
                rfl
            | some value =>
                obtain ⟨a, s₁, ha, -, rfl⟩ := judge_valueReturn_eq_ok.mp h
                have hvalue := ih value (by simp [Shape.children]) ha
                exact hvalue
          · obtain ⟨-, rfl⟩ := (judge_loopJump_eq_ok hop).mp h
            rfl
      | call callee arguments =>
          cases hg : s.signatures.find? callee with
          | none =>
              obtain ⟨-, rfl⟩ := (judge_unknownCall_eq_ok hg).mp h
              rfl
          | some g =>
              by_cases hcount : g.parameters.length = arguments.length
              · obtain ⟨b, s₁, ha, -, rfl⟩ := (judge_call_eq_ok hg hcount).mp h
                have harguments := judgeArguments_localLookup ih ha
                exact harguments
              · obtain ⟨-, rfl⟩ := (judge_miscountedCall_eq_ok hg hcount).mp h
                rfl
      | subscript operand index =>
          obtain ⟨a, s₁, ha, b, s₂, hb, -, rfl⟩ := judge_subscript_eq_ok.mp h
          have hoperand := ih operand (by simp [Shape.children]) ha
          have hindex := ih index (by simp [Shape.children]) hb
          exact hindex.trans hoperand

/-! ### The frame of a run -/

/-- What a run on the expression `id` leaves as it was: the number of open scopes and all but the
innermost one, the functions that can be called, the declared return type, and the types of what is
not below the expression. A block leaves all scopes as they were; otherwise what the innermost scope
says may change for names that are bound below the expression and not below a block. -/
structure Framed (a : Arena) (id : NodeId) (s s' : Checker) : Prop where
  depth : s'.scopes.depth = s.scopes.depth
  outer : s'.scopes.tail = s.scopes.tail
  signatures : s'.signatures = s.signatures
  returnType : s'.returnType = s.returnType
  size : s'.types.size = s.types.size
  types : ∀ i, ¬ a.Reaches id i → s'.types[i]? = s.types[i]?
  block : a.isBlock id = true → s'.scopes = s.scopes
  names : ∀ name, s'.scopes.localLookup name ≠ s.scopes.localLookup name →
    ∃ i, a.ReachesOpenly id i ∧ a.Binds name i

/-- A run on the tree of a number enters types of what is below that number only. -/
lemma judge_tree_types {a : Arena} {id i : NodeId} (h : judge (a.tree id) s = .ok (t, s'))
    (hi : ¬ a.Reaches id i) : s'.types[i]? = s.types[i]? := by
  refine judge_types_of_notMem h fun u hu huid => hi ?_
  rw [← huid]
  exact Arena.reaches_of_contains hu

/-- The tree of the number of a block is a block, so a run on it leaves all scopes as they were. -/
lemma judge_tree_scopes {a : Arena} {id : NodeId} (h : judge (a.tree id) s = .ok (t, s'))
    (hblock : a.isBlock id = true) : s'.scopes = s.scopes := by
  cases hid : a.get? id with
  | none => simp [Arena.isBlock, hid] at hblock
  | some node =>
      rw [Arena.isBlock_of_get? hid] at hblock
      obtain ⟨depth, hdepth⟩ := Nat.exists_eq_succ_of_ne_zero
        (Nat.ne_zero_of_lt (Arena.lt_size_of_get? hid))
      rw [Arena.tree, hdepth, Arena.unfold_succ_of_get? hid] at h
      obtain ⟨shape, l⟩ := node
      cases shape with
      | block statements => exact judge_block_scopes h
      | _ => cases hblock

lemma framed_of_judge {a : Arena} {id : NodeId} (h : judge (a.tree id) s = .ok (t, s')) :
    Framed a id s s' where
  depth := judge_depth h
  outer := (judge_kept h).outer
  signatures := (judge_kept h).signatures
  returnType := (judge_kept h).returnType
  size := judge_types_size h
  types _ hi := judge_tree_types h hi
  block hblock := judge_tree_scopes h hblock
  names _ hname := Arena.exists_binds_of_mem_declared
    (not_imp_comm.mp (fun hnot => judge_localLookup hnot h) hname)

end Typing

open Typing

/-- **The frame of a run.** Where no expression contains itself and all that is below an expression
is stored, the checker gives it a type, from every state. Whatever it complains of on the way, it
opens as many scopes as it closes and changes none but the innermost one; there only names are bound
that a binding below the expression, and not below a block, introduces, and a block binds none; the
functions that can be called, the declared return type and the types of all that is not below the
expression stay as they were.
The check of a function leaves the scopes exactly as they were and no declared return type, makes
the function callable by its name, and changes neither what other names stand for nor the types of
what is not below its body. -/
theorem judge_framed :
    (∀ (a : Arena) (s : Checker) (id : NodeId),
      (a.Acyclic → (∀ i, a.Reaches id i → i < a.size) →
        ∃ t s', judge (a.tree id) s = .ok (t, s')) ∧
      ∀ t s', judge (a.tree id) s = .ok (t, s') → Framed a id s s') ∧
    ∀ (p : Program) (f : Function) (s : Checker),
      (p.arena.Acyclic → (∀ i, p.arena.Reaches f.body i → i < p.arena.size) →
        ∃ s', checkFunction f.prototype (p.body f) s = .ok ((), s')) ∧
      ∀ s', checkFunction f.prototype (p.body f) s = .ok ((), s') →
        s'.scopes = s.scopes ∧ s'.returnType = none ∧
        s'.signatures.find? f.prototype.name = some (.ofPrototype f.prototype) ∧
        (∀ name, name ≠ f.prototype.name →
          s'.signatures.find? name = s.signatures.find? name) ∧
        ∀ i, ¬ p.arena.Reaches f.body i → s'.types[i]? = s.types[i]? := by
  refine ⟨fun a s id => ⟨fun hacyclic hstored => ?_, fun t s' h => framed_of_judge h⟩,
    fun p f s => ⟨fun hacyclic hstored => ?_, fun s' h => ?_⟩⟩
  · exact exists_judge (Arena.complete_tree hacyclic hstored) s
  · obtain ⟨t, s₁, hbody⟩ :=
      exists_judge (Arena.complete_tree hacyclic hstored) (s.entered f.prototype)
    exact ⟨s₁.exited, checkFunction_eq_ok.mpr ⟨t, s₁, hbody, rfl⟩⟩
  · obtain ⟨t, s₁, hbody, rfl⟩ := checkFunction_eq_ok.mp h
    have hframed : Framed p.arena f.body (s.entered f.prototype) s₁ := framed_of_judge hbody
    have hsignatures : s₁.exited.signatures
        = s.signatures.set f.prototype.name (.ofPrototype f.prototype) := hframed.signatures
    refine ⟨hframed.outer, rfl, ?_, fun name hname => ?_, hframed.types⟩
    · rw [hsignatures, Bindings.find?_set, if_pos rfl]
    · rw [hsignatures, Bindings.find?_set, if_neg hname.symm]

/-- The expressions of `(let x = true) + { let y = 1; y }`. -/
def shadowingArena : Arena :=
  ((((((Arena.empty.add (.boolean true) ⟨0, 9⟩).add (.binding "x" none 0) ⟨0, 1⟩).add
    (.number "1" false) ⟨0, 27⟩).add (.binding "y" none 2) ⟨0, 19⟩).add (.var "y") ⟨0, 30⟩).add
    (.block [3, 4]) ⟨0, 17⟩).add (.binary .plus 1 5) ⟨0, 15⟩

/-- The program of `func f() { (let x = true) + { let y = 1; y } }` without the braces of its
body. -/
def shadowingProgram : Program where
  arena := shadowingArena
  functions := [⟨⟨"f", [], .void, ⟨0, 5⟩⟩, 6⟩]

/-- A state in which two scopes are open, both with a `y` and the inner one with an `x`. -/
def shadowingStart : Checker where
  types := Array.replicate 8 .invalid
  scopes := [[("x", .int), ("y", .str)], [("y", .char)]]
  signatures := [("f", ⟨[.int], .int⟩), ("g", ⟨[], .bool⟩)]
  returnType := some .int

lemma descending_shadowingArena : shadowingArena.Descending :=
  ((((((Arena.descending_empty.add (by decide)).add (by decide)).add (by decide)).add
    (by decide)).add (by decide)).add (by decide)).add (by decide)

/-- An operand binds a name anew and a block hides another one: the first is changed in the
innermost scope, though two errors are recorded, and the second is not. -/
theorem shadowing_framed :
    shadowingArena.Acyclic ∧ (∀ i, shadowingArena.Reaches 6 i → i < shadowingArena.size) ∧
      (∃ t s', judge (shadowingArena.tree 6) shadowingStart = .ok (t, s') ∧
        s'.log.errorCount = 2 ∧
        s'.scopes = [[("x", .bool), ("y", .str)], [("y", .char)]] ∧
        Framed shadowingArena 6 shadowingStart s') ∧
      ∃ s', checkFunction ⟨"f", [], .void, ⟨0, 5⟩⟩ (shadowingArena.tree 6) shadowingStart
          = .ok ((), s') ∧
        s'.scopes = shadowingStart.scopes ∧ s'.returnType = none ∧
        s'.signatures.find? "f" = some ⟨[], .void⟩ ∧
        s'.signatures.find? "g" = some ⟨[], .bool⟩ ∧ s'.types[7]? = some .invalid := by
  have hacyclic := descending_shadowingArena.acyclic
  have hstored : ∀ i, shadowingArena.Reaches 6 i → i < shadowingArena.size := fun i hi =>
    (descending_shadowingArena.le_of_reaches hi).trans_lt (by decide)
  obtain ⟨hexpression, hfunction⟩ := judge_framed
  refine ⟨hacyclic, hstored, ?_, ?_⟩
  · obtain ⟨hresult, hframed⟩ := hexpression shadowingArena shadowingStart 6
    obtain ⟨t, s', hrun⟩ := hresult hacyclic hstored
    have hframe := hframed t s' hrun
    refine ⟨t, s', hrun, ?_, ?_, hframe⟩
    all_goals
      cases hrun
      rfl
  · obtain ⟨hresult, hkept⟩ := hfunction shadowingProgram
      ⟨⟨"f", [], .void, ⟨0, 5⟩⟩, 6⟩ shadowingStart
    obtain ⟨s', hrun⟩ := hresult hacyclic hstored
    obtain ⟨hscopes, hreturn, hown, hother, htypes⟩ := hkept s' hrun
    have habove : ¬ shadowingArena.Reaches 6 7 := fun h => absurd (hstored 7 h) (by decide)
    exact ⟨s', hrun, hscopes, hreturn, hown, hother "g" (by decide), htypes 7 habove⟩

end Fern
