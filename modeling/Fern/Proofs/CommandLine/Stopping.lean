import Mathlib.Tactic
import Fern.CommandLine.Compilation
import Fern.Proofs.Safety.Passes

/-!
Runs of the command on a text in which a pass finds an error.

* `tokensOf`, `programOf`, `passesOn`: the results of the passes over a text, and the passes that
  run on it. `tokenDump`: the dump of the tokens.
* `Session.Stops`: the passes from a stage on end at an error. `Session.Stops.last` and
  `Session.Stops.step` are the two ways in which one pass takes part in this.
* `run_stops`: **the run ends with the first pass that finds an error**, and prints everything once.
-/

namespace Fern.CommandLine

/-! ### Results of the passes -/

/-- The tokens of a text, if it can be read. -/
def tokensOf (source : String) : Option (List Token) := (tokenize source .empty).1

/-- The program that a text makes, if it makes one. -/
def programOf (source : String) : Option Program :=
  (tokensOf source).bind fun ts => (parse ts .empty).1

/-- The passes that run on a text in which an error is found: each if the one before it has a
result. -/
def passesOn (source : String) : List Phase :=
  .lexing :: if (tokensOf source).isSome then
    .parsing :: if (programOf source).isSome then [.typing] else []
  else []

/-- The dump of the tokens of a text: a line for each. -/
def tokenDump (source : String) : Option String :=
  (tokensOf source).map fun ts => String.join (ts.map fun t => t.text ++ "\n")

/-- A dump that has been asked for, if there is one. -/
def Options.dumped (o : Options) (kind : Dump) (text : Option String) : String :=
  if kind ∈ o.dumps then text.getD "" else ""

lemma Options.dumped_none (o : Options) (kind : Dump) : o.dumped kind none = "" := ite_self _

/-- A text that can be read has no lexical error. -/
lemma tokenize_of_some {source : String} {ts : List Token} (h : tokensOf source = some ts) :
    tokenize source .empty = (some ts, .empty) :=
  tokenize_of_ok (tokensFrom_of_tokenize h) .empty

/-- Tokens that make a program have no error. -/
lemma parse_of_some {ts : List Token} {p : Program} (h : (parse ts .empty).1 = some p) :
    parse ts .empty = (some p, .empty) := by
  obtain ⟨s', hprogram⟩ := Parsing.parse_eq_some.mp h
  exact Parsing.parse_of_program_eq_ok hprogram

/-- Where a text cannot be read, all that is found is found by the first pass. -/
lemma tokenize_of_none {source : String} (h : tokensOf source = none) :
    tokenize source .empty = (none, findings source) := by
  have hread : tokenize source .empty = (none, (tokenize source .empty).2) := Prod.ext h rfl
  rw [findings, hread]

/-- Where the tokens make no program, all that is found is found by the second pass. -/
lemma parse_of_none {source : String} {ts : List Token} (hread : tokensOf source = some ts)
    (h : (parse ts .empty).1 = none) : parse ts .empty = (none, findings source) := by
  have hparse : parse ts .empty = (none, (parse ts .empty).2) := Prod.ext h rfl
  rw [findings, tokenize_of_some hread]
  dsimp only
  rw [hparse]

/-- Where there is a program, all that is found is found by the third pass. -/
lemma exists_typeCheck_eq_findings {source : String} {ts : List Token} {p : Program}
    (hread : tokensOf source = some ts) (h : (parse ts .empty).1 = some p) :
    ∃ types, typeCheck p .empty = .ok (types, findings source) := by
  obtain ⟨types, log, hcheck⟩ := exists_typeCheck_of_parse h .empty
  refine ⟨types, ?_⟩
  rw [findings, tokenize_of_some hread]
  dsimp only
  rw [parse_of_some h]
  dsimp only
  rw [hcheck]

/-- What is dumped of a text is the dump of the program that it makes. -/
lemma dumped_eq (source : String) :
    dumped source = (programOf source).bind fun p => p.dump.toOption := by
  cases hread : tokensOf source with
  | none =>
      rw [dumped, tokenize_of_none hread, programOf, hread, Option.bind_none, Option.bind_none]
  | some ts =>
      rw [dumped, tokenize_of_some hread, programOf, hread, Option.bind_some]
      dsimp only
      rcases parse ts .empty with ⟨_ | p, log⟩ <;> rfl

/-- Every program that a text makes has a dump. -/
lemma isSome_dumped (source : String) : (dumped source).isSome = (programOf source).isSome := by
  rw [dumped_eq]
  cases hprogram : programOf source with
  | none => rfl
  | some p =>
      obtain ⟨ts, -, hparse⟩ := Option.bind_eq_some_iff.mp hprogram
      obtain ⟨text, hdump⟩ := exists_dump_of_parse hparse
      rw [Option.bind_some, hdump]
      rfl

/-! ### Passes up to an error -/

namespace Session

variable {s : Session} {b : Backend} {elapsed : Lap → String} {n : ℕ} {stage following : Stage}
  {log : Log} {product : Product} {phases : List Phase} {dumps : String}

lemma dump_tokens (ts : List Token) :
    s.dump (.tokens ts)
      = s.options.dumped .lex (some (String.join (ts.map fun t => t.text ++ "\n"))) :=
  rfl

lemma dump_program {p : Program} {text : String} (h : p.dump = .ok text) :
    s.dump (.program p) = s.options.dumped .parse (some text) := by
  simp only [dump, Product.dump?, h]
  rfl

/-- After a pass that finds an error its time and the findings are printed, and the run ends. -/
lemma report_of_hasErrors {result : Option Product} (phase : Phase) (h : log.hasErrors) :
    s.report phase elapsed (result, log)
      = (⟨"", s.timingLines phase elapsed ++ s.findings log⟩, none) := by
  simp only [report, h, if_true]

/-- After a pass that finds nothing its time and its dump are printed. -/
lemma report_of_empty (phase : Phase) :
    s.report phase elapsed (some product, .empty)
      = (⟨s.dump product, s.timingLines phase elapsed⟩, some product) := by
  have hnothing : s.findings .empty = "" := rfl
  have hfine : Log.empty.hasErrors = false := rfl
  simp only [report, hnothing, hfine, Bool.false_eq_true, if_false, String.append_empty]

/-- The passes from a stage on that run are `phases`, and the last of them finds what is in `log`.
Their dumps are `dumps`. Each tells its time, if this was asked for, and then the findings in `log`
are printed. -/
def Stops (s : Session) (b : Backend) (elapsed : Lap → String) (n : ℕ) (stage : Stage)
    (phases : List Phase) (dumps : String) (log : Log) : Prop :=
  ∃ steps, s.runPasses b elapsed n stage .empty = (steps, none) ∧ steps.map Step.phase = phases ∧
    Output.join (steps.map Step.output)
      = ⟨dumps, String.join (phases.map (s.timingLines · elapsed)) ++ s.findings log⟩

/-- The run ends with a pass that finds an error. -/
lemma Stops.last {result : Option Product} (hrun : stage.run s b .empty = (result, log))
    (herrors : log.hasErrors) : s.Stops b elapsed (n + 1) stage [stage.phase] "" log := by
  refine ⟨[⟨stage.phase, ⟨"", s.timingLines stage.phase elapsed ++ s.findings log⟩⟩], ?_, rfl, ?_⟩
  · simp only [runPasses, hrun, report_of_hasErrors stage.phase herrors]
  · simp [Output.join, String.join]

/-- A pass that finds nothing dumps its product, and the run goes on. -/
lemma Stops.step (hrun : stage.run s b .empty = (some product, .empty))
    (hstage : product.stage? = some following)
    (h : s.Stops b elapsed n following phases dumps log) :
    s.Stops b elapsed (n + 1) stage (stage.phase :: phases) (s.dump product ++ dumps) log := by
  obtain ⟨steps, hsteps, rfl, houtput⟩ := h
  obtain ⟨hdumps, hfindings⟩ := Output.mk.inj houtput
  refine ⟨⟨stage.phase, ⟨s.dump product, s.timingLines stage.phase elapsed⟩⟩ :: steps, ?_, rfl, ?_⟩
  · have hflushed : Log.empty.flushWarnings.2 = .empty := rfl
    simp only [runPasses, hrun, report_of_empty, hstage, hflushed, hsteps]
  · simp only [Output.join, List.map_cons, String.join_cons, hdumps, hfindings,
      String.append_assoc]

/-- A session whose text cannot be read. -/
lemma stops_lexing (hread : tokenize s.source .empty = (none, log)) (h : log.hasErrors) :
    s.Stops b elapsed (n + 1) .text [.lexing] "" log := by
  have hrun : Stage.run s b .text .empty = (none, log) := by
    simp only [Stage.run, hread, Option.map_none]
  exact .last hrun h

/-- A session whose tokens make no program. -/
lemma stops_parsing {ts : List Token} (hparse : parse ts .empty = (none, log))
    (h : log.hasErrors) : s.Stops b elapsed (n + 1) (.tokens ts) [.parsing] "" log := by
  have hrun : Stage.run s b (.tokens ts) .empty = (none, log) := by
    simp only [Stage.run, hparse, Option.map_none]
  exact .last hrun h

/-- A session whose program has an error. -/
lemma stops_typing {p : Program} {types : Array Ty} (hcheck : typeCheck p .empty = .ok (types, log))
    (h : log.hasErrors) : s.Stops b elapsed (n + 1) (.program p) [.typing] "" log := by
  have hrun : Stage.run s b (.program p) .empty = (some (.checked p types), log) := by
    simp only [Stage.run, hcheck]
  exact .last hrun h

/-- In a session with an error in its text the passes that run on the text are the last, with the
dumps of what they produce. -/
lemma stops_of_hasErrors (h : (Fern.findings s.source).hasErrors) :
    s.Stops b elapsed 4 .text (passesOn s.source)
      (s.options.dumped .lex (tokenDump s.source) ++ s.options.dumped .parse (dumped s.source))
      (Fern.findings s.source) := by
  rw [dumped_eq]
  unfold passesOn tokenDump programOf
  cases hread : tokensOf s.source with
  | none =>
      simpa [Options.dumped_none] using stops_lexing (tokenize_of_none hread) h
  | some ts =>
      have hlexing : Stage.run s b .text .empty = (some (.tokens ts), .empty) := by
        simp only [Stage.run, tokenize_of_some hread, Option.map_some]
      cases hprogram : (parse ts .empty).1 with
      | none =>
          have hstops : s.Stops b elapsed 4 .text _ _ _ :=
            .step hlexing rfl (stops_parsing (parse_of_none hread hprogram) h)
          simpa [hprogram, Options.dumped_none, dump_tokens, Stage.phase] using hstops
      | some p =>
          have hparsing : Stage.run s b (.tokens ts) .empty = (some (.program p), .empty) := by
            simp only [Stage.run, parse_of_some hprogram, Option.map_some]
          obtain ⟨text, hdump⟩ := exists_dump_of_parse hprogram
          obtain ⟨types, hcheck⟩ := exists_typeCheck_eq_findings hread hprogram
          have hstops : s.Stops b elapsed 4 .text _ _ _ :=
            .step hlexing rfl (.step hparsing rfl (stops_typing hcheck h))
          have htree : p.dump.toOption = some text := by
            rw [hdump]
            rfl
          simpa [hprogram, htree, dump_tokens, dump_program hdump, Stage.phase] using hstops

end Session

/-! ### Runs -/

/-- The session for a source text. -/
def Options.session (o : Options) (source : String) : Session := ⟨source, displayName o.file, o⟩

/-- The lines that tell how long some passes took, if they were asked for. -/
def Options.times (o : Options) (elapsed : Lap → String) (phases : List Phase) : String :=
  if o.timings then
    String.join (phases.map fun p => timingLabel p ++ " in " ++ elapsed (.pass p) ++ "\n")
  else ""

/-- No code is generated from a text with an error. -/
lemma ne_generation_of_mem {source : String} {phase : Phase} (h : phase ∈ passesOn source) :
    phase ≠ .generation := by
  rintro rfl
  unfold passesOn at h
  split_ifs at h <;> simp at h

/-- The passes that run on a text with an error tell their times in one line each. -/
lemma join_timingLines (o : Options) (source : String) (elapsed : Lap → String) :
    String.join ((passesOn source).map ((o.session source).timingLines · elapsed))
      = o.times elapsed (passesOn source) := by
  unfold Options.times
  split_ifs with htimings
  · refine congrArg String.join (List.map_congr_left fun phase hphase => ?_)
    simp only [Session.timingLines, Options.session, htimings, if_true,
      if_neg (ne_generation_of_mem hphase), String.append_empty]
  · have hsilent : ∀ phase, (o.session source).timingLines phase elapsed = "" := fun phase => by
      simp only [Session.timingLines, Options.session, htimings, Bool.false_eq_true, if_false]
    simp only [hsilent, List.map_const']
    generalize (passesOn source).length = n
    induction n with
    | zero => rfl
    | succ n ih => rw [List.replicate_succ, String.join_cons, ih, String.append_empty]

/-- **The first error ends the run.** On every host, where an error is found in the text of a file,
the status is 1, no file is written, and the passes that run are those up to the one with the error.
The tokens and the program are dumped once if this was asked for and there are any. The times of the
passes that run are told if this was asked for; then come all warnings, all errors, and their
number. -/
theorem run_stops {Files : Type} {host : Host Files} {files : Files} {elapsed : Lap → String}
    {o : Options} {source : String} (hfile : host.read files o.file = .ok source)
    (hblank : Text.isAllBlank source.toList = false) (hfails : (findings source).hasErrors) :
    runWith host files elapsed o
        = (⟨⟨o.dumped .lex (tokenDump source) ++ o.dumped .parse (dumped source),
            o.times elapsed (passesOn source) ++
              ((o.session source).render (findings source).warnings ++
                ((o.session source).render (findings source).errors ++
                  ("Generated " ++ toString (findings source).errors.length ++ " error(s)\n")))⟩,
          1⟩, files) ∧
      ((o.session source).runFrom host.toBackend elapsed .text).1.map Step.phase
        = passesOn source ∧
      (dumped source).isSome = (programOf source).isSome := by
  have hstops : (o.session source).Stops host.toBackend elapsed 4 .text (passesOn source)
      (o.dumped .lex (tokenDump source) ++ o.dumped .parse (dumped source)) (findings source) :=
    Session.stops_of_hasErrors hfails
  obtain ⟨steps, hsteps, hphases, houtput⟩ := hstops
  have hrun : (o.session source).runFrom host.toBackend elapsed .text = (steps, none) := hsteps
  have hsession : openSession o (host.read files o.file) = .ok (o.session source) := by
    simp [openSession, hfile, hblank, Options.session]
  refine ⟨?_, by rw [hrun, hphases], isSome_dumped source⟩
  simp only [runWith, hsession, hrun, finish, houtput, join_timingLines, Session.findings,
    hfails, if_true]
  rfl

/-- A program with an error, and a warning about what comes after it. -/
def lateText : String := "func f() -> int \x7b\n\treturn true;\n\t1\n\x7d\n"

/-- Files by path, and a program that makes code of anything. What is written stays. -/
def eagerHost : Host (List (String × String)) where
  generate _ _ _ log := ("; code", log)
  read files path :=
    match files.lookup path with
    | some text => .ok text
    | none => .error "No such file or directory (os error 2)"
  write files path text := .ok ((path, text) :: files)

/-- The file `late.fern` alone, at the root. -/
def lateFiles : List (String × String) := [("/late.fern", lateText)]

/-- A request that asks for a dump twice and names a file to be written. -/
def lateOptions : Options := ⟨"/late.fern", [.lex, .lex, .parse], some "../late.ll", true⟩

/-- The types are found to be wrong after two dumps, and nothing is written. -/
theorem late_stops :
    eagerHost.read lateFiles lateOptions.file = .ok lateText ∧
      Text.isAllBlank lateText.toList = false ∧ (findings lateText).hasErrors ∧
      passesOn lateText = [.lexing, .parsing, .typing] ∧
      runWith eagerHost lateFiles (fun _ => "1ms") lateOptions = (⟨⟨
        "1:1 Func\n1:6 Ident (f)\n1:7 LParen\n1:8 RParen\n1:10 Arrow\n1:13 Ident (int)\n" ++
          "1:17 LBrace\n2:2 Return\n2:9 True\n2:13 Semicolon\n3:2 Integer (1)\n4:1 RBrace\n" ++
          "FunctionNode:\n  Prototype: 'f' (ret ty: int)\n  BlockNode:\n" ++
          "    SingleOpNode: 'Return'\n      BooleanNode: 'true'\n    NumberNode: '1'\n",
        "Tokenized in 1ms\nParsed in 1ms\nType checked in 1ms\n" ++
          "late.fern:3:2: warning: unreachable code after return\n  |\n3 | 1\n  | ^\n" ++
          "late.fern:2:2: error: incorrect return type\n  |\n2 | return true;\n  | ^\n" ++
          "  = note: function returns int, value type is bool\nGenerated 1 error(s)\n"⟩, 1⟩,
        lateFiles) := by
  have hfile : eagerHost.read lateFiles lateOptions.file = .ok lateText := by decide +kernel
  have hblank : Text.isAllBlank lateText.toList = false := by decide +kernel
  have hfails : (findings lateText).hasErrors := by decide +kernel
  refine ⟨hfile, hblank, hfails, by decide +kernel, ?_⟩
  rw [(run_stops hfile hblank hfails).1]
  exact Prod.ext (by decide +kernel) rfl

end Fern.CommandLine
