import Mathlib.Tactic
import Fern.Proofs.Parsing.Printing
import Fern.Proofs.Program.Outline
import Fern.Proofs.Program.Relabelling

/-!
Programs that can be read off their dumps.

* `Shape.Legible`: forms whose names and literals can be told from what is around them.
  `Shape.map_eq_of_heading_eq`: the heading and the number of subexpressions determine such a form.
* `Tree.erase_eq_of_outline_eq`, `Prototype.erase_eq_of_outline_eq`: the lines determine an
  expression and the head of a function.
* `Program.Legible`: programs of such parts. `Program.Legible.dump_eq_iff`: **their dumps say
  everything about them** but numbers and places.
-/

namespace Fern

open Dump

/-! ### Legible forms -/

lemma Token.Kind.name_injective : Function.Injective Token.Kind.name := by
  have hmem : ∀ k : Kind, k ∈ (List.range 46).map ofNat := fun k =>
    List.mem_map.mpr ⟨k.ctorIdx, List.mem_range.mpr (by cases k <;> decide), ofNat_ctorIdx k⟩
  have hnodup : (((List.range 46).map ofNat).map name).Nodup := by decide +kernel
  exact fun k k' h => List.inj_on_of_nodup_map hnodup (hmem k) (hmem k') h

lemma Ty.Base.name_injective : Function.Injective Ty.Base.name := by
  intro b b' h
  cases b <;> cases b' <;> first | rfl | (simp [Ty.Base.name] at h)

/-- The written form of a type determines it: its name begins with no reference mark. -/
lemma Ty.text_injective : Function.Injective Ty.text := by
  rintro ⟨base, depth⟩ ⟨base', depth'⟩ h
  have hmark : ∀ b : Ty.Base, b.name.toList.head? ≠ some '&' := by
    intro b
    cases b <;> decide
  have hlist := congrArg String.toList h
  simp only [text, String.toList_append, String.toList_ofList] at hlist
  obtain ⟨rfl, hname⟩ := eq_of_replicate_append_eq (hmark base) (hmark base') hlist
  rw [Ty.Base.name_injective (String.toList_inj.mp hname)]

/-- A name that can be told from the quotes around it. -/
structure PlainName (s : String) : Prop where
  oneLine : OneLine s
  quote_notMem : '\'' ∉ s.toList

/-- A text can be told from what stands before and after it. -/
lemma enclosed_injective (before after : String) :
    Function.Injective fun s : String => before ++ s ++ after := by
  intro s s' h
  exact (String.append_right_inj before).mp ((String.append_left_inj after).mp h)

lemma quoted_injective : Function.Injective quoted := enclosed_injective " '" "'"

lemma labelled_injective (opening : String) : Function.Injective (labelled opening) :=
  (enclosed_injective opening ")").comp Ty.text_injective

/-- A quoted name ends at the first quote after its beginning. -/
lemma PlainName.eq_of_quoted_append_eq {s s' t t' : String} (h : PlainName s) (h' : PlainName s')
    (heq : quoted s ++ t = quoted s' ++ t') : s = s' ∧ t = t' := by
  have hlist := congrArg String.toList heq
  simp only [quoted, String.toList_append, List.append_assoc] at hlist
  obtain ⟨hs, ht⟩ := eq_of_append_cons_eq h.quote_notMem h'.quote_notMem
    (List.append_cancel_left hlist)
  exact ⟨String.toList_inj.mp hs, String.toList_inj.mp ht⟩

namespace Shape

variable {ε δ : Type} {s : Shape ε} {s' : Shape δ}

/-- Names and literals can be told from what is around them, and numbers with a fraction from those
without. -/
def Legible : Shape ε → Prop
  | binding name _ _ | call name _ | var name => PlainName name
  | number value isFloat => OneLine value ∧ isFloat = decide ('.' ∈ value.toList)
  | string value | char value => OneLine value
  | _ => True

/-- The heading determines the word for the form and what is said beyond it. -/
lemma eq_of_heading_eq (h : s.heading = s'.heading) :
    s.title = s'.title ∧ s.detail = s'.detail := by
  have htitles : ∀ t ∈ titles, ':' ∉ t.toList := by decide
  have hlist := congrArg String.toList h
  simp only [heading, String.toList_append, List.append_assoc] at hlist
  obtain ⟨hleft, hright⟩ := eq_of_append_cons_eq (htitles _ s.title_mem_titles)
    (htitles _ s'.title_mem_titles) hlist
  exact ⟨String.toList_inj.mp hleft, String.toList_inj.mp hright⟩

/-- **Headings.** The heading and the number of subexpressions determine a legible form. -/
lemma map_eq_of_heading_eq (hs : s.Legible) (hs' : s'.Legible) (h : s.heading = s'.heading)
    (hlength : s.children.length = s'.children.length) :
    (s.map fun _ => ()) = s'.map fun _ => () := by
  obtain ⟨htitle, hdetail⟩ := eq_of_heading_eq h
  have hunit : ∀ {α β : Type} {as : List α} {bs : List β}, as.length = bs.length →
      (as.map fun _ => ()) = bs.map fun _ => () := fun hlength => by
    simp only [List.map_const', hlength]
  have hoption : ∀ {α β : Type} {o : Option α} {o' : Option β}, o.toList.length = o'.toList.length →
      (o.map fun _ => ()) = o'.map fun _ => () := by
    rintro α β (_ | a) (_ | b) h <;> simp at h ⊢
  cases s <;> cases s' <;> simp only [title] at htitle <;>
    try exact absurd htitle (by decide)
  case binary.binary =>
    exact congrArg (binary · () ()) (Token.Kind.name_injective (quoted_injective hdetail))
  case unary.unary =>
    exact congrArg (unary · ()) (Token.Kind.name_injective (quoted_injective hdetail))
  case cond.cond => exact congrArg (cond () ()) (hoption (by simpa [children] using hlength))
  case binding.binding name stated _ name' stated' _ =>
    obtain ⟨rfl, hstated⟩ := PlainName.eq_of_quoted_append_eq hs hs' hdetail
    have hnone : ∀ ty : Ty, labelled " (ty annot: " ty ≠ "" := fun ty heq => by
      simpa [labelled] using congrArg String.toList heq
    cases stated with
    | none =>
        cases stated' with
        | none => rfl
        | some ty' => exact absurd hstated.symm (hnone ty')
    | some ty =>
        cases stated' with
        | none => exact absurd hstated (hnone ty)
        | some ty' => rw [map, map, labelled_injective _ hstated]
  case jump.jump =>
    exact congrArg₂ jump (Token.Kind.name_injective (quoted_injective hdetail)) (hoption hlength)
  case block.block => exact congrArg block (hunit hlength)
  case call.call => exact congrArg₂ call (quoted_injective hdetail) (hunit hlength)
  case var.var => exact congrArg var (quoted_injective hdetail)
  case subscript.subscript => rfl
  case boolean.boolean value value' =>
    have hvalue := quoted_injective hdetail
    cases value <;> cases value' <;> first | rfl | exact absurd hvalue (by decide)
  case number.number =>
    obtain rfl := quoted_injective hdetail
    exact congrArg (number _) (hs.2.trans hs'.2.symm)
  case string.string => exact congrArg string (enclosed_injective " \"" "\"" hdetail)
  case char.char => exact congrArg char (quoted_injective hdetail)

end Shape

/-! ### Clean lines -/

lemma Line.clean_append {depth : ℕ} {title rest : String} (htitle : OneLine title)
    (hstart : title.toList.head?.any (· ≠ ' ')) (hrest : OneLine rest) :
    Line.Clean ⟨depth, title ++ rest⟩ := by
  refine ⟨oneLine_append.mpr ⟨htitle, hrest⟩, ?_⟩
  rw [String.toList_append]
  cases hlist : title.toList with
  | nil => simp [hlist] at hstart
  | cons c cs => simpa [hlist] using hstart

lemma Token.Kind.oneLine_name (k : Token.Kind) : OneLine k.name := by
  cases k <;> decide

lemma Ty.oneLine_text (ty : Ty) : OneLine ty.text := by
  have hname : ∀ b : Ty.Base, OneLine b.name := by
    intro b
    cases b <;> decide
  refine oneLine_append.mpr ⟨?_, hname ty.base⟩
  rw [OneLine, String.toList_ofList]
  exact fun h => absurd (List.eq_of_mem_replicate h) (by decide)

lemma oneLine_quoted {s : String} (h : OneLine s) : OneLine (quoted s) :=
  oneLine_append.mpr ⟨oneLine_append.mpr ⟨by decide, h⟩, by decide⟩

lemma oneLine_labelled {opening : String} (h : OneLine opening) (ty : Ty) :
    OneLine (labelled opening ty) :=
  oneLine_append.mpr ⟨oneLine_append.mpr ⟨h, ty.oneLine_text⟩, by decide⟩

/-- What is said of a legible form is on one line. -/
lemma Shape.Legible.oneLine_detail {ε : Type} {s : Shape ε} (h : s.Legible) : OneLine s.detail := by
  cases s with
  | binary operator | unary operator | jump operator => exact oneLine_quoted operator.oneLine_name
  | cond | block | subscript => exact (by decide : OneLine "")
  | binding name stated value =>
      refine oneLine_append.mpr ⟨oneLine_quoted h.oneLine, ?_⟩
      cases stated with
      | none => exact (by decide : OneLine "")
      | some ty => exact oneLine_labelled (by decide) ty
  | call | var => exact oneLine_quoted h.oneLine
  | boolean value => cases value <;> exact oneLine_quoted (by decide)
  | number => exact oneLine_quoted h.1
  | string => exact oneLine_append.mpr ⟨oneLine_append.mpr ⟨by decide, h⟩, by decide⟩
  | char => exact oneLine_quoted h

lemma Shape.Legible.clean {ε : Type} {s : Shape ε} (h : s.Legible) (depth : ℕ) :
    Line.Clean ⟨depth, s.heading⟩ := by
  have htitles : ∀ t ∈ titles, OneLine t ∧ t.toList.head?.any (· ≠ ' ') := by decide
  obtain ⟨hline, hstart⟩ := htitles _ s.title_mem_titles
  rw [heading, String.append_assoc]
  exact Line.clean_append hline hstart (oneLine_append.mpr ⟨by decide, h.oneLine_detail⟩)

namespace Tree

variable {t u : Tree} {depth : ℕ} {l : Line}

/-- The lines of an expression say nothing of numbers and places. -/
lemma outline_erase (depth : ℕ) (t : Tree) : t.erase.outline depth = t.outline depth := by
  induction t using childInduction generalizing depth with
  | missing id => rfl
  | node id place shape ih =>
      rw [erase_node, outline_node, outline_node, Shape.heading_map, Shape.children_map,
        List.map_map]
      exact congrArg (fun ls => _ :: List.flatten ls)
        (List.map_congr_left fun c hc => ih c hc (depth + 1))

/-- The lines of a legible expression are clean. -/
lemma clean_of_mem_outline (h : t.Throughout Shape.Legible) (hl : l ∈ t.outline depth) :
    l.Clean := by
  induction t using childInduction generalizing depth with
  | missing id => cases hl
  | node id place shape ih =>
      rw [outline_node, List.mem_cons, ← List.flatMap_def, List.mem_flatMap] at hl
      rcases hl with rfl | ⟨c, hc, hl⟩
      · exact (h id place shape (.self _)).clean depth
      · exact ih c hc (fun i k s hs => h i k s (.child hc hs)) hl

/-- No line of an expression is less deep than its own. -/
lemma le_depth_of_mem_outline (hl : l ∈ t.outline depth) : depth ≤ l.depth := by
  induction t using childInduction generalizing depth with
  | missing id => cases hl
  | node id place shape ih =>
      rw [outline_node, List.mem_cons, ← List.flatMap_def, List.mem_flatMap] at hl
      rcases hl with rfl | ⟨c, hc, hl⟩
      · exact le_rfl
      · exact Nat.le_of_succ_le (ih c hc hl)

/-- The lines of an expression that is not missing are an entry. -/
lemma isEntry_outline (h : t.Complete) (depth : ℕ) : IsEntry depth (t.outline depth) := by
  cases t with
  | missing id => exact absurd h (not_complete_missing id)
  | node id place shape =>
      refine ⟨_, _, outline_node depth id place shape, fun l hl => ?_⟩
      rw [← List.flatMap_def, List.mem_flatMap] at hl
      obtain ⟨c, -, hl⟩ := hl
      exact le_depth_of_mem_outline hl

/-- **Expressions.** The lines of a legible expression determine it, apart from numbers and places.
The lines below the heading fall into those of the subexpressions. -/
lemma erase_eq_of_outline_eq (ht : t.Complete) (ht' : t.Throughout Shape.Legible) (hu : u.Complete)
    (hu' : u.Throughout Shape.Legible) (h : t.outline depth = u.outline depth) :
    t.erase = u.erase := by
  induction t using childInduction generalizing u depth with
  | missing id => exact absurd ht (not_complete_missing id)
  | node id place shape ih =>
      cases u with
      | missing id' => exact absurd hu (not_complete_missing id')
      | node id' place' shape' =>
          rw [outline_node, outline_node, List.cons.injEq, Line.mk.injEq] at h
          obtain ⟨⟨-, hheading⟩, hlines⟩ := h
          have hchildren := eq_of_flatten_eq
            (List.forall_mem_map.mpr fun c hc => isEntry_outline (ht.child hc) _)
            (List.forall_mem_map.mpr fun c hc => isEntry_outline (hu.child hc) _) hlines
          have hform := Shape.map_eq_of_heading_eq (ht' id place shape (.self _))
            (hu' id' place' shape' (.self _)) hheading
            (by simpa using congrArg List.length hchildren)
          have herased : shape.children.map erase = shape'.children.map erase :=
            map_eq_of_map_eq (fun c hc c' hc' => ih c hc (ht.child hc)
              (fun i k s hs => ht' i k s (.child hc hs)) (hu.child hc')
              (fun i k s hs => hu' i k s (.child hc' hs))) hchildren
          rw [erase_node, erase_node]
          refine congrArg (node 0 .start) (Shape.eq_of_children ?_ ?_)
          · rw [Shape.map_map, Shape.map_map]
            exact hform
          · rw [Shape.children_map, Shape.children_map, herased]

end Tree

/-! ### Heads of functions -/

/-- A parameter has a name that can be told from the quotes around it. -/
def Parameter.Legible (p : Parameter) : Prop := PlainName p.name

/-- So have the head of a function and its parameters. -/
structure Prototype.Legible (p : Prototype) : Prop where
  name : PlainName p.name
  parameters : ∀ q ∈ p.parameters, q.Legible

section Heads

variable {depth : ℕ} {p p' : Parameter} {q q' : Prototype}

lemma Parameter.outline_eq (depth : ℕ) (p : Parameter) :
    p.outline depth
      = ⟨depth, "PrototypeArg:" ++ (quoted p.name ++ labelled " (ty: " p.type)⟩ := by
  simp [outline, titled_eq, labelled, String.append_assoc]

lemma Prototype.outline_eq (depth : ℕ) (q : Prototype) :
    q.outline depth
      = ⟨depth, "Prototype:" ++ (quoted q.name ++ labelled " (ret ty: " q.returnType)⟩ ::
          q.parameters.map (Parameter.outline (depth + 1)) := by
  simp [outline, titled_eq, labelled, String.append_assoc]

/-- The lines of a head say nothing of places. -/
lemma Prototype.outline_erase (depth : ℕ) (q : Prototype) :
    q.erase.outline depth = q.outline depth := by
  rw [outline_eq, outline_eq, erase, List.map_map]
  rfl

/-- A line of a name and a type. -/
lemma PlainName.clean {title name opening : String} (h : PlainName name)
    (htitle : OneLine title ∧ title.toList.head?.any (· ≠ ' ')) (hopening : OneLine opening)
    (ty : Ty) (depth : ℕ) : Line.Clean ⟨depth, title ++ (quoted name ++ labelled opening ty)⟩ :=
  Line.clean_append htitle.1 htitle.2
    (oneLine_append.mpr ⟨oneLine_quoted h.oneLine, oneLine_labelled hopening ty⟩)

/-- A line of a name and a type determines both. -/
lemma PlainName.eq_of_line_eq {title name name' opening : String} {ty ty' : Ty}
    (h : PlainName name) (h' : PlainName name')
    (heq : title ++ (quoted name ++ labelled opening ty)
      = title ++ (quoted name' ++ labelled opening ty')) : name = name' ∧ ty = ty' := by
  obtain ⟨hname, hty⟩ := h.eq_of_quoted_append_eq h' ((String.append_right_inj title).mp heq)
  exact ⟨hname, labelled_injective opening hty⟩

lemma Parameter.erase_eq_of_outline_eq (h : p.Legible) (h' : p'.Legible)
    (heq : p.outline depth = p'.outline depth) : p.erase = p'.erase := by
  rw [outline_eq, outline_eq, Line.mk.injEq] at heq
  obtain ⟨hname, htype⟩ := PlainName.eq_of_line_eq h h' heq.2
  rw [erase, erase, hname, htype]

/-- The lines of a head determine it, apart from places. -/
lemma Prototype.erase_eq_of_outline_eq (h : q.Legible) (h' : q'.Legible)
    (heq : q.outline depth = q'.outline depth) : q.erase = q'.erase := by
  rw [outline_eq, outline_eq, List.cons.injEq, Line.mk.injEq] at heq
  obtain ⟨⟨-, hline⟩, hparameters⟩ := heq
  obtain ⟨hname, htype⟩ := PlainName.eq_of_line_eq h.name h'.name hline
  have herased := map_eq_of_map_eq (fun p hp p' hp' =>
    Parameter.erase_eq_of_outline_eq (h.parameters p hp) (h'.parameters p' hp')) hparameters
  rw [erase, erase, hname, htype, herased]

lemma Prototype.clean_of_mem_outline (h : q.Legible) {l : Line} (hl : l ∈ q.outline depth) :
    l.Clean := by
  rw [outline_eq, List.mem_cons, List.mem_map] at hl
  rcases hl with rfl | ⟨p, hp, rfl⟩
  · exact h.name.clean (by decide) (by decide) _ _
  · rw [Parameter.outline_eq]
    exact PlainName.clean (h.parameters p hp) (by decide) (by decide) _ _

lemma Prototype.isEntry_outline (q : Prototype) (depth : ℕ) : IsEntry depth (q.outline depth) :=
  ⟨_, _, rfl, List.forall_mem_map.mpr fun _ _ => Nat.lt_succ_self depth⟩

end Heads

/-! ### Programs -/

/-- The lines of a declaration. -/
def Prototype.declarationEntry (q : Prototype) : List Line := ⟨0, "ExternNode:"⟩ :: q.outline 1

/-- The lines of a function with its body. -/
def functionEntry (f : Prototype × Tree) : List Line :=
  ⟨0, "FunctionNode:"⟩ :: (f.1.outline 1 ++ f.2.outline 1)

/-- The names and literals of a function can be told from what is around them, and nothing of its
body is missing. -/
structure LegibleFunction (f : Prototype × Tree) : Prop where
  head : f.1.Legible
  complete : f.2.Complete
  body : f.2.Throughout Shape.Legible

lemma LegibleFunction.erase_eq_of_functionEntry_eq {f f' : Prototype × Tree}
    (hf : LegibleFunction f) (hf' : LegibleFunction f') (h : functionEntry f = functionEntry f') :
    (f.1.erase, f.2.erase) = (f'.1.erase, f'.2.erase) := by
  -- the head and the body are two entries below the function
  have hentries : ∀ {f}, LegibleFunction f → ∀ e ∈ [f.1.outline 1, f.2.outline 1], IsEntry 1 e :=
    fun {f} hf => by simpa using ⟨f.1.isEntry_outline 1, Tree.isEntry_outline hf.complete 1⟩
  obtain ⟨hheads, hbodies⟩ := List.cons.inj
    (eq_of_flatten_eq (hentries hf) (hentries hf') (by simpa [functionEntry] using h))
  rw [Prototype.erase_eq_of_outline_eq hf.head hf'.head hheads,
    Tree.erase_eq_of_outline_eq hf.complete hf.body hf'.complete hf'.body (List.cons.inj hbodies).1]

namespace Program

/-- The functions with their bodies, without numbers and places. -/
def erasedFunctions (p : Program) : List (Prototype × Tree) :=
  p.functions.map fun f => (f.prototype.erase, (p.body f).erase)

/-- All declarations and functions of the program are legible. -/
structure Legible (p : Program) : Prop where
  declarations : ∀ q ∈ p.declarations, q.Legible
  functions : ∀ f ∈ p.functions, LegibleFunction (f.prototype, p.body f)

variable {p q : Program}

/-- The lines of the declarations and of the functions, each an entry. -/
def entries (p : Program) : List (List Line) :=
  p.declarations.map Prototype.declarationEntry ++
    p.functions.map fun f => functionEntry (f.prototype, p.body f)

lemma outline_eq (p : Program) : p.outline = p.entries.flatten := by
  rw [outline, entries, List.flatten_append, List.flatMap_def, List.flatMap_def]
  rfl

lemma isEntry_of_mem_entries {e : List Line} (h : e ∈ p.entries) : IsEntry 0 e := by
  rcases List.mem_append.mp h with h | h
  · obtain ⟨r, -, rfl⟩ := List.mem_map.mp h
    exact ⟨_, _, rfl, fun l hl => (r.isEntry_outline 1).le_depth hl⟩
  · obtain ⟨f, -, rfl⟩ := List.mem_map.mp h
    refine ⟨_, _, rfl, fun l hl => ?_⟩
    rcases List.mem_append.mp hl with hl | hl
    · exact (f.prototype.isEntry_outline 1).le_depth hl
    · exact Tree.le_depth_of_mem_outline hl

/-- Whether an entry is that of a declaration. -/
def isDeclarationEntry (e : List Line) : Bool := e.head? = some ⟨0, "ExternNode:"⟩

/-- The entries of the declarations can be told from those of the functions. -/
lemma filter_entries (p : Program) :
    p.entries.filter isDeclarationEntry = p.declarations.map Prototype.declarationEntry ∧
      p.entries.filter (!isDeclarationEntry ·)
        = p.functions.map fun f => functionEntry (f.prototype, p.body f) := by
  have hdeclaration : ∀ r : Prototype, isDeclarationEntry r.declarationEntry = true :=
    fun r => rfl
  have hfunction : ∀ f, isDeclarationEntry (functionEntry f) = false := fun f => by
    simp [isDeclarationEntry, functionEntry]
  constructor <;> simp [entries, List.filter_append, List.filter_map, Function.comp_def,
    hdeclaration, hfunction]

/-- **Programs.** The lines of a legible program determine it, apart from numbers and places. -/
lemma erased_eq_of_outline_eq (hp : p.Legible) (hq : q.Legible) (h : p.outline = q.outline) :
    p.declarations.map Prototype.erase = q.declarations.map Prototype.erase ∧
      p.erasedFunctions = q.erasedFunctions := by
  have hentries : p.entries = q.entries :=
    eq_of_flatten_eq (fun _ => isEntry_of_mem_entries) (fun _ => isEntry_of_mem_entries)
      (by rw [← outline_eq, ← outline_eq, h])
  have hdeclarations := p.filter_entries.1
  have hfunctions := p.filter_entries.2
  rw [hentries, q.filter_entries.1] at hdeclarations
  rw [hentries, q.filter_entries.2] at hfunctions
  refine ⟨map_eq_of_map_eq (fun r hr r' hr' heq => ?_) hdeclarations.symm,
    map_eq_of_map_eq (fun f hf f' hf' heq => ?_) hfunctions.symm⟩
  · exact Prototype.erase_eq_of_outline_eq (hp.declarations r hr) (hq.declarations r' hr')
      (List.cons.inj heq).2
  · exact (hp.functions f hf).erase_eq_of_functionEntry_eq (hq.functions f' hf') heq

/-- The lines of a legible program are clean. -/
lemma clean_of_mem_outline (hp : p.Legible) {l : Line} (hl : l ∈ p.outline) : l.Clean := by
  rw [outline, List.mem_append, List.mem_flatMap, List.mem_flatMap] at hl
  rcases hl with ⟨r, hr, hl⟩ | ⟨f, hf, hl⟩
  · rcases List.mem_cons.mp hl with rfl | hl
    · exact ⟨by decide, by decide⟩
    · exact Prototype.clean_of_mem_outline (hp.declarations r hr) hl
  · rcases List.mem_cons.mp hl with rfl | hl
    · exact ⟨by decide, by decide⟩
    rcases List.mem_append.mp hl with hl | hl
    · exact Prototype.clean_of_mem_outline (hp.functions f hf).head hl
    · exact Tree.clean_of_mem_outline (hp.functions f hf).body hl

/-- What the lines say has no numbers and places. -/
lemma entries_eq (p : Program) : p.entries
    = (p.declarations.map Prototype.erase).map Prototype.declarationEntry ++
      p.erasedFunctions.map functionEntry := by
  rw [entries, erasedFunctions, List.map_map, List.map_map]
  refine congrArg₂ (· ++ ·) (List.map_congr_left fun r _ => ?_) (List.map_congr_left fun f _ => ?_)
  · rw [Function.comp_apply, Prototype.declarationEntry, Prototype.declarationEntry,
      Prototype.outline_erase]
  · rw [Function.comp_apply, functionEntry, functionEntry, Prototype.outline_erase,
      Tree.outline_erase]

lemma Legible.dump_eq (hp : p.Legible) :
    p.dump = .ok (String.join (p.outline.map Line.render)) := by
  have hnone : p.firstMissing = none := List.findSome?_eq_none_iff.mpr fun f hf =>
    (hp.functions f hf).complete.firstMissing_eq_none
  rw [dump, hnone]

/-- **Dumps.** Legible programs have the same dump exactly if they are the same, apart from numbers
and places. -/
theorem Legible.dump_eq_iff (hp : p.Legible) (hq : q.Legible) : p.dump = q.dump ↔
    p.declarations.map Prototype.erase = q.declarations.map Prototype.erase ∧
      p.erasedFunctions = q.erasedFunctions := by
  rw [hp.dump_eq, hq.dump_eq, Except.ok.injEq]
  constructor
  · exact fun h => erased_eq_of_outline_eq hp hq (join_render_injective
      (fun _ => clean_of_mem_outline hp) (fun _ => clean_of_mem_outline hq) h)
  · rintro ⟨hdeclarations, hfunctions⟩
    rw [outline_eq, outline_eq, entries_eq, entries_eq, hdeclarations, hfunctions]

end Program

end Fern
