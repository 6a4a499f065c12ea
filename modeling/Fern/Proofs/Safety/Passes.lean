import Mathlib.Tactic
import Fern.Program.Dump
import Fern.Proofs.Diagnostic.Pointing
import Fern.Proofs.Safety.Lexing
import Fern.Proofs.Safety.Parsing

/-!
All passes over a text, with a check at every access.

* `Guarded.dereference`, `Guarded.render`: a type without one of its references, and the written
  form of a finding.
* `Guarded.findings`, `Guarded.reports`: the passes one after the other, and what they print.
* `reports_without_fault`: **no pass over a text meets a fault**.
-/

namespace Fern

open Text

namespace Guarded

/-! ### Types -/

/-- One reference fewer, as `Ty.dereference` has it. -/
def dereference (t : Ty) : Except Fault (Option Ty) :=
  if 0 < t.depth then do
    let depth ← sub t.depth 1
    return some { t with depth := depth }
  else if t.base = .str then .ok (some .char)
  else .ok none

lemma dereference_eq (t : Ty) : dereference t = .ok t.dereference := by
  unfold dereference Ty.dereference
  split
  · next hdepth =>
    rw [sub, if_pos (Nat.succ_le_of_lt hdepth)]
    rfl
  · split <;> rfl

/-! ### Written findings -/

/-- Places are written counted from one. -/
def countFromOne (l : Location) : Except Fault Location :=
  let next : Location := ⟨l.line + 1, l.column + 1⟩
  if next.fits then .ok next else .error .overflow

/-- The written form of a finding. The line it is about is cut after as many bytes as it has
characters of indentation. -/
def render (source : List Char) (file : String) (d : Diagnostic) : Except Fault String := do
  let _ ← countFromOne d.location
  match lineAt source d.location with
  | none => return d.headline file ++ d.remarks
  | some line =>
    let start := (line.takeWhile Diagnostic.isIndent).length
    let text ← sliceFrom start line
    let excerpt :=
      d.margin "|" ++ "\n" ++
      d.lineNumber ++ " | " ++ String.ofList (trimEnd text) ++ "\n" ++
      d.margin "|" ++ " " ++ Diagnostic.caret d.location.column start ++ "\n"
    return d.headline file ++ excerpt ++ d.remarks

/-- An indentation takes one byte for each character. -/
lemma utf8Length_takeWhile_isIndent (line : List Char) :
    utf8Length (line.takeWhile Diagnostic.isIndent)
      = (line.takeWhile Diagnostic.isIndent).length := by
  induction line with
  | nil => rfl
  | cons c line ih =>
      by_cases hc : Diagnostic.isIndent c = true
      · have hsize : c.utf8Size = 1 := by
          simp only [Diagnostic.isIndent, Bool.or_eq_true, decide_eq_true_eq] at hc
          rcases hc with rfl | rfl <;> rfl
        rw [List.takeWhile_cons_of_pos hc, utf8Length_cons, List.length_cons, ih, hsize,
          Nat.add_comm]
      · rw [List.takeWhile_cons_of_neg hc]
        rfl

/-- **Writing without a fault.** A finding at a place that can be counted from one is written
without a fault, and as `Diagnostic.render` writes it. -/
lemma render_eq {source : List Char} {d : Diagnostic} (file : String)
    (hplace : d.location.line + d.location.column + 1 < Location.wordBound) :
    render source file d = .ok (d.render source file) := by
  have hcount : countFromOne d.location = .ok ⟨d.location.line + 1, d.location.column + 1⟩ := by
    rw [countFromOne]
    refine if_pos ?_
    simp only [Location.fits, Bool.and_eq_true, decide_eq_true_eq]
    omega
  rw [render, hcount, ok_bind, Diagnostic.render, Diagnostic.excerpt]
  cases lineAt source d.location with
  | none => rw [String.append_empty]; rfl
  | some line =>
      have hsplit := List.takeWhile_append_dropWhile (p := Diagnostic.isIndent) (l := line)
      have hslice := sliceFrom_eq_ok _ hsplit.symm (utf8Length_takeWhile_isIndent line).symm
      simp only [hslice, ok_bind]
      rfl

lemma mapM_eq_ok {α β : Type} {f : α → Except Fault β} {g : α → β} {as : List α}
    (h : ∀ a ∈ as, f a = .ok (g a)) : as.mapM f = .ok (as.map g) := by
  induction as with
  | nil => rfl
  | cons a as ih =>
      rw [List.mapM_cons, h a (by simp), ih fun b hb => h b (by simp [hb])]
      rfl

/-! ### All passes -/

/-- What is computed on expressions that are all stored. -/
def stored {α : Type} : Except MissingNode α → Except Fault α
  | .ok a => .ok a
  | .error missing => .error (.missing missing.id)

/-- The passes over a text: what is recorded, and the dump of the program if there is one. -/
def findings (source : String) : Except Fault (Option String × Log) := do
  match ← tokenize source .empty with
  | (none, log) => return (none, log)
  | (some tokens, log) =>
    match ← Parsing.Guarded.parse tokens log with
    | (none, log) => return (none, log)
    | (some p, log) =>
      let dump ← stored p.dump
      let (_, log) ← stored (typeCheck p log)
      return (some dump, log)

/-- What the passes over a text print: the dump of the program, if there is one, then a report on
every warning and every error. -/
def reports (source file : String) : Except Fault (Option String × List String) := do
  let (dump, log) ← findings source
  let texts ← (log.warnings ++ log.errors).mapM (render source.toList file)
  return (dump, texts)

end Guarded

/-- The dump of the program that a text makes, if it makes one. -/
def dumped (source : String) : Option String :=
  match tokenize source .empty with
  | (none, _) => none
  | (some tokens, log) =>
    match parse tokens log with
    | (none, _) => none
    | (some p, _) => p.dump.toOption

/-- What is found in a text is at a place that is not beyond its characters. -/
lemma place_lt_length {source : String} {d : Diagnostic}
    (hd : d ∈ (findings source).warnings ++ (findings source).errors) :
    d.location.line + d.location.column < source.length := by
  have hplace : IsBeginning source.toList d.location :=
    (List.mem_append.mp hd).elim ((liesIn_findings source).warnings d)
      ((liesIn_findings source).errors d)
  obtain ⟨c, hbegins, -⟩ := hplace
  obtain ⟨rest, before, hsource, hl⟩ := hbegins.exists_standsAt
  have hle := Location.line_add_column_advanceOver_le .start before
  rw [← String.length_toList, hsource, hl, List.length_append, List.length_cons]
  simp only [Location.start] at *
  omega

/-- A parsed program has a dump. -/
lemma exists_dump_of_parse {tokens : List Token} {log : Log} {p : Program}
    (h : (parse tokens log).1 = some p) : ∃ text, p.dump = .ok text := by
  have hnone : p.firstMissing = none := by
    rw [Program.firstMissing, List.findSome?_eq_none_iff]
    exact fun f hf => ((Parsing.stored_of_parse h).1 f hf).complete.firstMissing_eq_none
  exact ⟨_, by rw [Program.dump, hnone]⟩

/-- No pass up to the types meets a fault. -/
lemma Guarded.findings_eq {source : String} (hlength : source.length < Location.wordBound) :
    Guarded.findings source = .ok (dumped source, Fern.findings source) := by
  rw [Guarded.findings, Guarded.tokenize_eq hlength, ok_bind, dumped, Fern.findings]
  rcases Fern.tokenize source .empty with ⟨tokens, log⟩
  cases tokens with
  | none => rfl
  | some tokens =>
      dsimp only
      rw [Parsing.Guarded.parse_eq, ok_bind]
      cases hparse : Fern.parse tokens log with
      | mk program log =>
          cases program with
          | none => rfl
          | some p =>
              obtain ⟨text, hdump⟩ := exists_dump_of_parse (congrArg Prod.fst hparse)
              obtain ⟨types, out, hcheck⟩ :=
                exists_typeCheck_of_parse (congrArg Prod.fst hparse) log
              simp only [hdump, hcheck, Guarded.stored, ok_bind]
              rfl

/-- **No pass meets a fault.** For every source text of fewer than `2 ^ 32` characters, the passes
over it never look up an expression that is not stored, never cut a text inside a character or after
its end, never subtract more than there is and never count beyond a word. They give the dump of the
program and the report on each finding as the passes without checks do. -/
theorem reports_without_fault (source file : String) (hlength : source.length < 2 ^ 32) :
    Guarded.reports source file
        = .ok (dumped source, ((findings source).warnings ++ (findings source).errors).map
            (·.render source.toList file)) ∧
      ∀ t : Ty, Guarded.dereference t = .ok t.dereference := by
  have hrender : ∀ d ∈ (findings source).warnings ++ (findings source).errors,
      Guarded.render source.toList file d = .ok (d.render source.toList file) := fun d hd =>
    Guarded.render_eq file (lt_of_le_of_lt (place_lt_length hd) hlength)
  refine ⟨?_, Guarded.dereference_eq⟩
  rw [Guarded.reports, Guarded.findings_eq hlength, Guarded.ok_bind]
  dsimp only
  rw [Guarded.mapM_eq_ok hrender]
  rfl

/-- A text with letters of two bytes in a literal and in a comment, on an indented line. -/
def accented : String := "func f() \x7b\n\tx + 'é' // «\n\x7d\n"

/-- What is printed of a text with letters of two bytes, by passes that check every access. -/
theorem accented_without_fault :
    accented.length < 2 ^ 32 ∧
      Guarded.reports accented "a.fern" = .ok
        (some ("FunctionNode:\n  Prototype: 'f' (ret ty: void)\n  BlockNode:\n" ++
          "    BinaryNode: 'Plus'\n      VariableNode: 'x'\n      CharNode: 'é'\n"),
        ["a.fern:2:2: error: unknown variable name\n  |\n2 | x + 'é' // «\n  | ^\n" ++
          "  = help: variable `x` not declared\n"]) := by
  have hlength : accented.length < 2 ^ 32 := by decide +kernel
  refine ⟨hlength, ?_⟩
  rw [(reports_without_fault accented "a.fern" hlength).1]
  decide +kernel

end Fern
