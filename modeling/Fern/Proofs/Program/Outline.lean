import Mathlib.Tactic
import Fern.Program.Dump

/-!
The lines of a dump.

* `OneLine`, `Dump.Line.Clean`: texts on one line, and lines whose indentation ends where their text
  begins. `Dump.join_render_injective`: the written lines determine such lines.
* `Dump.IsEntry`: a line with deeper ones after it. `Dump.eq_of_flatten_eq`: lines fall into such
  entries at one depth in one way.
* `Shape.heading`: the text of the line of an expression. `Tree.outline_node`: the other lines are
  those of its subexpressions.
-/

namespace Fern

/-! ### Cutting texts -/

section Cut

variable {α : Type} {a : α} {xs ys xs' ys' : List α}

/-- What stands before the first separator, and what stands after it. -/
lemma eq_of_append_cons_eq (h : a ∉ xs) (h' : a ∉ xs') (heq : xs ++ a :: ys = xs' ++ a :: ys') :
    xs = xs' ∧ ys = ys' := by
  induction xs generalizing xs' with
  | nil =>
      cases xs' with
      | nil => exact ⟨rfl, (List.cons.inj heq).2⟩
      | cons x' xs' => exact absurd (List.mem_cons.mpr (.inl (List.cons.inj heq).1)) h'
  | cons x xs ih =>
      cases xs' with
      | nil => exact absurd (List.mem_cons.mpr (.inl (List.cons.inj heq).1.symm)) h
      | cons x' xs' =>
          obtain ⟨rfl, hrest⟩ := List.cons.inj heq
          rw [List.mem_cons, not_or] at h h'
          obtain ⟨rfl, rfl⟩ := ih h.2 h'.2 hrest
          exact ⟨rfl, rfl⟩

/-- How often a sign is repeated, and what stands after it. -/
lemma eq_of_replicate_append_eq {m n : ℕ} (h : ys.head? ≠ some a) (h' : ys'.head? ≠ some a)
    (heq : List.replicate m a ++ ys = List.replicate n a ++ ys') : m = n ∧ ys = ys' := by
  induction m generalizing n with
  | zero =>
      cases n with
      | zero => exact ⟨rfl, heq⟩
      | succ n =>
          rw [List.replicate_zero, List.nil_append] at heq
          exact absurd (by rw [heq]; rfl) h
  | succ m ih =>
      cases n with
      | zero =>
          rw [List.replicate_zero, List.nil_append] at heq
          exact absurd (by rw [← heq]; rfl) h'
      | succ n =>
          obtain ⟨rfl, rfl⟩ := ih (List.cons.inj heq).2
          exact ⟨rfl, rfl⟩

/-- What one map tells of the entries of two lists, another one tells of the lists. -/
lemma map_eq_of_map_eq {β γ δ : Type} {as : List α} {bs : List β} {f : α → γ} {f' : β → γ}
    {g : α → δ} {g' : β → δ} (h : ∀ a ∈ as, ∀ b ∈ bs, f a = f' b → g a = g' b)
    (heq : as.map f = bs.map f') : as.map g = bs.map g' := by
  induction as generalizing bs with
  | nil =>
      cases bs with
      | nil => rfl
      | cons b bs => cases heq
  | cons a as ih =>
      cases bs with
      | nil => cases heq
      | cons b bs =>
          obtain ⟨hfirst, hothers⟩ := List.cons.inj heq
          rw [List.map_cons, List.map_cons, h a (.head _) b (.head _) hfirst,
            ih (fun a ha b hb => h a (.tail _ ha) b (.tail _ hb)) hothers]

end Cut

/-- A text without a newline. -/
def OneLine (s : String) : Prop := '\n' ∉ s.toList

instance (s : String) : Decidable (OneLine s) := inferInstanceAs (Decidable ('\n' ∉ _))

lemma oneLine_append {s t : String} : OneLine (s ++ t) ↔ OneLine s ∧ OneLine t := by
  rw [OneLine, String.toList_append, List.mem_append, not_or, OneLine, OneLine]

namespace Dump

/-! ### Lines -/

/-- The text of the line is on one line, and is not indented. -/
structure Line.Clean (l : Line) : Prop where
  oneLine : OneLine l.text
  flush : l.text.toList.head? ≠ some ' '

/-- A written line: spaces, the text, and a newline. -/
lemma Line.toList_render (l : Line) :
    l.render.toList = (List.replicate (2 * l.depth) ' ' ++ l.text.toList) ++ ['\n'] := by
  rw [render, String.toList_append, String.toList_append, String.toList_ofList]
  rfl

lemma Line.newline_notMem {l : Line} (h : l.Clean) :
    '\n' ∉ List.replicate (2 * l.depth) ' ' ++ l.text.toList := by
  rw [List.mem_append, not_or]
  exact ⟨fun hmem => absurd (List.eq_of_mem_replicate hmem) (by decide), h.oneLine⟩

/-- A written text that begins with a line determines the line and what comes after it. -/
lemma Line.eq_of_render_append_eq {l l' : Line} {s s' : String} (h : l.Clean) (h' : l'.Clean)
    (heq : l.render ++ s = l'.render ++ s') : l = l' ∧ s = s' := by
  have hlist := congrArg String.toList heq
  simp only [String.toList_append, toList_render, List.append_assoc (_ ++ _),
    List.singleton_append] at hlist
  obtain ⟨htext, hs⟩ := eq_of_append_cons_eq (newline_notMem h) (newline_notMem h') hlist
  obtain ⟨hdepth, htext⟩ := eq_of_replicate_append_eq h.flush h'.flush htext
  obtain ⟨depth, text⟩ := l
  obtain ⟨depth', text'⟩ := l'
  obtain rfl : depth = depth' := by simpa using hdepth
  obtain rfl : text = text' := String.toList_inj.mp htext
  exact ⟨rfl, String.toList_inj.mp hs⟩

/-- **Lines.** The written lines determine the lines, if these are clean. -/
lemma join_render_injective {ls ls' : List Line} (h : ∀ l ∈ ls, l.Clean)
    (h' : ∀ l ∈ ls', l.Clean)
    (heq : String.join (ls.map Line.render) = String.join (ls'.map Line.render)) : ls = ls' := by
  have hempty : ∀ (l : Line) (s : String), l.render ++ s ≠ "" := fun l s heq => by
    simpa [Line.toList_render] using congrArg String.toList heq
  induction ls generalizing ls' with
  | nil =>
      cases ls' with
      | nil => rfl
      | cons l' ls' =>
          rw [List.map_cons, String.join_cons] at heq
          exact absurd heq.symm (hempty _ _)
  | cons l ls ih =>
      cases ls' with
      | nil =>
          rw [List.map_cons, String.join_cons] at heq
          exact absurd heq (hempty _ _)
      | cons l' ls' =>
          obtain ⟨hl, hls⟩ := List.forall_mem_cons.mp h
          obtain ⟨hl', hls'⟩ := List.forall_mem_cons.mp h'
          rw [List.map_cons, List.map_cons, String.join_cons, String.join_cons] at heq
          obtain ⟨rfl, hothers⟩ := Line.eq_of_render_append_eq hl hl' heq
          rw [ih hls hls' hothers]

/-! ### Entries -/

/-- A line with deeper ones after it. -/
def IsEntry (depth : ℕ) (ls : List Line) : Prop :=
  ∃ text rest, ls = ⟨depth, text⟩ :: rest ∧ ∀ l ∈ rest, depth < l.depth

lemma IsEntry.le_depth {depth : ℕ} {ls : List Line} {l : Line} (h : IsEntry depth ls)
    (hl : l ∈ ls) : depth ≤ l.depth := by
  obtain ⟨text, rest, rfl, hrest⟩ := h
  rcases List.mem_cons.mp hl with rfl | hl
  · exact le_rfl
  · exact (hrest l hl).le

/-- After the first line of an entry and of others at its depth come its deeper lines, up to the
next line at this depth. -/
lemma takeWhile_entry {depth : ℕ} {rest : List Line} {es : List (List Line)}
    (h : ∀ l ∈ rest, depth < l.depth) (hes : ∀ e ∈ es, IsEntry depth e) :
    (rest ++ es.flatten).takeWhile (depth < ·.depth) = rest := by
  have hnone : es.flatten.takeWhile (depth < ·.depth) = [] := by
    cases es with
    | nil => rfl
    | cons e es =>
        obtain ⟨text, deeper, rfl, -⟩ := hes e (List.mem_cons_self ..)
        simp
  rw [List.takeWhile_append_of_pos (by simpa using h), hnone, List.append_nil]

/-- **Entries.** Lines fall into entries at one depth in one way: an entry goes on up to the next
line at this depth. -/
lemma eq_of_flatten_eq {depth : ℕ} {es es' : List (List Line)} (h : ∀ e ∈ es, IsEntry depth e)
    (h' : ∀ e ∈ es', IsEntry depth e) (heq : es.flatten = es'.flatten) : es = es' := by
  induction es generalizing es' with
  | nil =>
      cases es' with
      | nil => rfl
      | cons e' es' =>
          obtain ⟨text, rest, rfl, -⟩ := h' e' (List.mem_cons_self ..)
          cases heq
  | cons e es ih =>
      obtain ⟨⟨text, rest, rfl, hrest⟩, hes⟩ := List.forall_mem_cons.mp h
      cases es' with
      | nil => cases heq
      | cons e' es' =>
          obtain ⟨⟨text', rest', rfl, hrest'⟩, hes'⟩ := List.forall_mem_cons.mp h'
          simp only [List.flatten_cons, List.cons_append, List.cons.injEq, Line.mk.injEq,
            true_and] at heq
          obtain ⟨rfl, hall⟩ := heq
          obtain rfl : rest = rest' := by
            rw [← takeWhile_entry hrest hes, hall, takeWhile_entry hrest' hes']
          rw [ih hes hes' (List.append_cancel_left hall)]

/-- A text in single quotes, after a space. -/
def quoted (s : String) : String := " '" ++ s ++ "'"

/-- A type between an opening parenthesis with its label and a closing one. -/
def labelled (opening : String) (ty : Ty) : String := opening ++ ty.text ++ ")"

lemma titled_eq (title detail : String) : titled title detail = title ++ ":" ++ quoted detail := by
  have hcolon : ": '" = ":" ++ " '" := rfl
  rw [titled, quoted, hcolon]
  simp only [String.append_assoc]

end Dump

open Dump

/-! ### Headings -/

namespace Shape

variable {ε δ : Type}

/-- The word for a form. -/
def title : Shape ε → String
  | binary _ _ _ => "BinaryNode"
  | unary _ _ => "UnaryNode"
  | cond _ _ _ => "IfNode"
  | binding _ _ _ => "LetNode"
  | block _ => "BlockNode"
  | jump _ _ => "SingleOpNode"
  | call _ _ => "CallNode"
  | var _ => "VariableNode"
  | subscript _ _ => "SubscriptNode"
  | boolean _ => "BooleanNode"
  | number _ _ => "NumberNode"
  | string _ => "StringNode"
  | char _ => "CharNode"

/-- The words for the forms. -/
def titles : List String :=
  ["BinaryNode", "UnaryNode", "IfNode", "LetNode", "BlockNode", "SingleOpNode", "CallNode",
    "VariableNode", "SubscriptNode", "BooleanNode", "NumberNode", "StringNode", "CharNode"]

lemma title_mem_titles (s : Shape ε) : s.title ∈ titles := by
  cases s <;> simp [title, titles]

/-- What is said of a form beyond its word. -/
def detail : Shape ε → String
  | binary operator _ _ | unary operator _ | jump operator _ => quoted operator.name
  | cond _ _ _ | block _ | subscript _ _ => ""
  | binding name stated _ => quoted name ++ (stated.map (labelled " (ty annot: ")).getD ""
  | call name _ | var name | number name _ | char name => quoted name
  | boolean value => quoted (if value then "true" else "false")
  | string value => " \"" ++ value ++ "\""

/-- The text of the line of a form. -/
def heading (s : Shape ε) : String := s.title ++ ":" ++ s.detail

/-- The heading of a form does not depend on its subexpressions. -/
lemma heading_map (f : ε → δ) (s : Shape ε) : (s.map f).heading = s.heading := by
  cases s <;> rfl

end Shape

attribute [local simp] Shape.heading Shape.title Shape.detail Shape.children titled_eq

@[local simp] lemma Tree.outlineAll_eq (depth : ℕ) (ts : List Tree) :
    Tree.outlineAll depth ts = (ts.map (Tree.outline depth)).flatten := by
  induction ts with
  | nil => rfl
  | cons t ts ih => rw [outlineAll, ih, List.map_cons, List.flatten_cons]

/-- The lines of an expression are its heading and, one level deeper, those of its
subexpressions. -/
lemma Tree.outline_node (depth : ℕ) (id : NodeId) (l : Location) (shape : Shape Tree) :
    (node id l shape).outline depth
      = ⟨depth, shape.heading⟩ :: (shape.children.map (Tree.outline (depth + 1))).flatten := by
  cases shape with
  | cond condition thenBlock elseBlock => cases elseBlock <;> simp [Tree.outline]
  | jump operator value => cases value <;> simp [Tree.outline]
  | binding name stated value =>
      cases stated <;> simp [Tree.outline, String.append_assoc, labelled]
  | string value =>
      have hquote : "StringNode: \"" = "StringNode" ++ ":" ++ " \"" := rfl
      have htext : "StringNode: \"" ++ value ++ "\""
          = (Shape.string value : Shape Tree).heading := by
        rw [hquote, Shape.heading, Shape.detail]
        simp only [String.append_assoc]
        rfl
      exact congrArg (fun text => [Line.mk depth text]) htext
  | _ => simp [Tree.outline]

end Fern
