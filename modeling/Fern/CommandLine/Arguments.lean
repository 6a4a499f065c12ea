import Fern.CommandLine.Options
import Fern.Text.Likeness

/-!
The arguments of the command `fernc`.

* `Argument`: what can be given, and how usage lines write it.
* `longNames`, `similarName?`: the long names of options, and the one that a misspelt name stands
  for.
* `Dump.ofName?`: the dump that is asked for by a name.
* `Refusal`: what can be wrong with the words of a command line, and `Refusal.text`, the report of
  it.
* `readArguments`: the request that a command line makes.

The value of an option, and the file, are looked at only when the next argument begins or the line
ends: until then they are *pending*. So of two mistakes the earlier one is reported, unless the
later word cannot be an argument at all.
-/

namespace Fern.CommandLine

/-- What a command line can give. -/
inductive Argument where
  | file
  | passDebug
  | output
  | timings
  | help
  | version
deriving Repr, DecidableEq

/-- An argument as usage lines and messages write it. -/
def Argument.text : Argument → String
  | file => "<FILE>"
  | passDebug => "--pass-debug <PASS_DEBUG>"
  | output => "--output <OUTPUT>"
  | timings => "--timings"
  | help => "--help"
  | version => "--version"

/-- The options that have a long name, without its dashes. -/
def longNames : List (String × Argument) :=
  [("pass-debug", .passDebug), ("output", .output), ("timings", .timings), ("help", .help),
    ("version", .version)]

/-- The long name that a misspelt one most likely stands for. -/
def similarName? (name : String) : Option String :=
  Text.mostAlike? name (longNames.map Prod.fst)

/-- The names of the dumps. -/
def Dump.names : List (String × Dump) :=
  [("lex", .lex), ("parse", .parse), ("codegen", .codegen)]

/-- The dump of a name. -/
def Dump.ofName? (name : String) : Option Dump :=
  Dump.names.lookup name

/-- What can be wrong with the words of a command line. The arguments given before a mistake are
kept where the report names them. -/
inductive Refusal where
  | missingFile (given : List Argument)
  | valueRequired (argument : Argument)
  | invalidDump (value : String)
  | repeated (argument : Argument)
  | unneededValue (argument : Argument) (value : String) (given : List Argument)
  /-- A second file, which is no option. -/
  | secondFile (word : String)
  /-- A long option, by its name without dashes. -/
  | unknownOption (name : String) (given : List Argument)
  /-- A short option. -/
  | unknownLetter (letter : Char)
deriving Repr, DecidableEq

/-! ### Reports -/

/-- The usage line that names all there is. -/
def fullUsage : String := "Usage: fernc [OPTIONS] <FILE>"

/-- The usage line that names the given arguments, each once, and the file last. -/
def usageOf (given : List Argument) : String :=
  "Usage: fernc " ++
    String.join (((given.filter (· ≠ .file)).eraseDups).map fun a => a.text ++ " ") ++
    Argument.file.text

/-- The values that `--pass-debug` can have. -/
def dumpValues : String :=
  "  [possible values: " ++ ", ".intercalate (Dump.names.map Prod.fst) ++ "]"

namespace Refusal

/-- What is wrong. -/
def message : Refusal → String
  | missingFile _ => "the following required arguments were not provided:\n  <FILE>"
  | valueRequired a =>
    "a value is required for '" ++ a.text ++ "' but none was supplied" ++
      if a = .passDebug then "\n" ++ dumpValues else ""
  | invalidDump value =>
    "invalid value '" ++ value ++ "' for '" ++ Argument.passDebug.text ++ "'\n" ++ dumpValues
  | repeated a => "the argument '" ++ a.text ++ "' cannot be used multiple times"
  | unneededValue a value _ =>
    "unexpected value '" ++ value ++ "' for '" ++ a.text ++ "' found; no more were expected"
  | secondFile word => "unexpected argument '" ++ word ++ "' found"
  | unknownOption name _ => "unexpected argument '--" ++ name ++ "' found"
  | unknownLetter c => "unexpected argument '-" ++ c.toString ++ "' found"

/-- The advice to end the options before a word that looks like one. -/
def valueTip (word : String) : String :=
  "to pass '" ++ word ++ "' as a value, use '-- " ++ word ++ "'"

/-- What may have been meant: a name much like the one given or, of an option without such a name,
a value. -/
def tip : Refusal → Option String
  | invalidDump value =>
    (Text.mostAlike? value (Dump.names.map Prod.fst)).map fun name =>
      "a similar value exists: '" ++ name ++ "'"
  | unknownOption name _ =>
    match similarName? name with
    | some similar => some ("a similar argument exists: '--" ++ similar ++ "'")
    | none => some (valueTip ("--" ++ name))
  | unknownLetter c => some (valueTip (String.ofList ['-', c]))
  | missingFile _ | valueRequired _ | repeated _ | unneededValue .. | secondFile _ => none

/-- What an unknown option makes of the options given before it: its likely meaning counts as
given. -/
def givenWithSimilar (name : String) (given : List Argument) : List Argument :=
  given ++ ((similarName? name).bind fun similar => longNames.lookup similar).toList

/-- How the command should be used, where a mistake is in the choice of arguments. -/
def usage : Refusal → Option String
  | missingFile given => some (usageOf given)
  | valueRequired _ | invalidDump _ => none
  | repeated _ | secondFile _ | unknownLetter _ => some fullUsage
  | unneededValue a _ given => some (usageOf (given ++ [a]))
  | unknownOption name given =>
    let given := givenWithSimilar name given
    some (if given.all (· = .file) then fullUsage else usageOf given)

/-- The report of a mistake. -/
def text (r : Refusal) : String :=
  "error: " ++ r.message ++ "\n\n" ++
    (match r.tip with
    | some t => "  tip: " ++ t ++ "\n\n"
    | none => "") ++
    (match r.usage with
    | some u => u ++ "\n\n"
    | none => "") ++
    "For more information, try '--help'.\n"

end Refusal

/-- The help text. -/
def helpText : String :=
  "Compiles a Fern source file to LLVM IR\n" ++
  "\n" ++
  fullUsage ++ "\n" ++
  "\n" ++
  "Arguments:\n" ++
  "  <FILE>  Source file to compile\n" ++
  "\n" ++
  "Options:\n" ++
  "      --pass-debug <PASS_DEBUG>  Dump the output of a pass to stdout " ++
    "[possible values: lex, parse, codegen]\n" ++
  "  -o, --output <OUTPUT>          Write the generated module as textual IR\n" ++
  "      --timings                  Print how long every pass took to stderr\n" ++
  "  -h, --help                     Print help\n" ++
  "  -V, --version                  Print version\n"

/-- The version text. -/
def versionText : String := "fernc 0.1.0\n"

/-! ### Reading -/

/-- Why no file is compiled. -/
inductive Stop where
  | help
  | version
  | refused (r : Refusal)
deriving Repr, DecidableEq

/-- What the words read so far have given. -/
structure Intake where
  file : Option String := none
  dumps : List Dump := []
  output : Option String := none
  timings : Bool := false
  /-- The arguments given, in the order of their first mention. -/
  given : List Argument := []
  /-- The argument that is still open, with its value if it has one. -/
  pending : Option (Argument × Option String) := none
  /-- Whether `--` has ended the options. -/
  optionsEnded : Bool := false
deriving Repr, DecidableEq

namespace Intake

/-- Notes that an argument was given. -/
def mention (s : Intake) (a : Argument) : Intake :=
  if a ∈ s.given then s else { s with given := s.given ++ [a] }

/-- Takes the value of an argument. -/
def store (s : Intake) (a : Argument) (value : String) : Except Refusal Intake :=
  match a with
  | .file =>
    if value.isEmpty then .error (.valueRequired a) else .ok { s.mention a with file := some value }
  | .output =>
    if s.output.isSome then .error (.repeated a)
    else if value.isEmpty then .error (.valueRequired a)
    else .ok { s.mention a with output := some value }
  | .passDebug =>
    match Dump.ofName? value with
    | some dump => .ok { s.mention a with dumps := s.dumps ++ [dump] }
    | none => .error (if value.isEmpty then .valueRequired a else .invalidDump value)
  | .timings | .help | .version => .ok s

/-- Closes the open argument. -/
def settle (s : Intake) : Except Refusal Intake :=
  match s.pending with
  | none => .ok s
  | some (a, none) => .error (.valueRequired a)
  | some (a, some value) => { s with pending := none }.store a value

/-- The arguments that count as given once the open one is closed, be its value good or not. An
option without its value does not count, nor does an output that is given again. -/
def givenAfter (s : Intake) : List Argument :=
  match s.pending with
  | some (a, some _) =>
    if a = .output ∧ s.output.isSome then s.given.filter (· ≠ .output) else (s.mention a).given
  | _ => s.given

/-- Closes the open argument, where a mistake in it ends the reading. -/
def close (s : Intake) : Except Stop Intake := s.settle.mapError .refused

/-- Takes an argument that has no value. -/
def flag (s : Intake) (a : Argument) : Except Stop Intake := do
  let s ← s.close
  match a with
  | .help => .error .help
  | .version => .error .version
  | _ =>
    if s.timings then .error (.refused (.repeated a))
    else .ok { s.mention a with timings := true }

/-- Takes an option whose value, if it is there yet, is attached to it. -/
def option (s : Intake) (a : Argument) (value : Option String) : Except Stop Intake := do
  let s ← s.close
  match value with
  | none => return { s with pending := some (a, none) }
  | some value => (s.store a value).mapError .refused

/-- Whether the open argument still waits for its value. -/
def awaitsValue (s : Intake) : Bool :=
  match s.pending with
  | some (_, none) => !s.optionsEnded
  | _ => false

/-- Whether a file has been given, be it looked at or not. -/
def hasFile (s : Intake) : Bool :=
  s.file.isSome || (s.pending.map Prod.fst) = some .file

/-- Takes a word that is no option: the value that is waited for, or the file. -/
def plain (s : Intake) (word : String) : Except Stop Intake :=
  match s.pending, s.awaitsValue with
  | some (a, none), true => .ok { s with pending := some (a, some word) }
  | _, _ =>
    if s.hasFile then .error (.refused (.secondFile word))
    else do
      let s ← s.close
      return { s with pending := some (.file, some word) }

/-- Splits the text of a long option at its first equals sign. -/
def splitValue (text : List Char) : List Char × Option String :=
  match text.dropWhile (· ≠ '=') with
  | [] => (text, none)
  | _ :: value => (text.takeWhile (· ≠ '='), some (String.ofList value))

/-- Takes an option that is written with two dashes in front of `text`. -/
def long (s : Intake) (text : List Char) : Except Stop Intake :=
  let (name, value) := splitValue text
  let name := String.ofList name
  match longNames.lookup name, value with
  | none, _ => .error (.refused (.unknownOption name s.givenAfter))
  | some .passDebug, value => s.option .passDebug value
  | some .output, value => s.option .output value
  | some a, none => s.flag a
  | some a, some value => .error (.refused (.unneededValue a value s.given))

/-- Takes an option that is written with one dash, the letter `c` and `text`. -/
def short (s : Intake) (c : Char) (text : List Char) : Except Stop Intake :=
  match c, text with
  | 'h', _ => s.flag .help
  | 'V', _ => s.flag .version
  | 'o', [] => s.option .output none
  | 'o', '=' :: value => s.option .output (some (String.ofList value))
  | 'o', value => s.option .output (some (String.ofList value))
  | c, _ => .error (.refused (.unknownLetter c))

/-- Takes one word of the command line. -/
def word (s : Intake) (w : String) : Except Stop Intake :=
  if s.optionsEnded then s.plain w
  else
    match w.toList with
    | ['-', '-'] => .ok { s with optionsEnded := true }
    | '-' :: '-' :: text => s.long text
    | '-' :: c :: text => s.short c text
    | _ => s.plain w

/-- Takes words one after the other. -/
def words (s : Intake) : List String → Except Stop Intake
  | [] => .ok s
  | w :: ws => do (← s.word w).words ws

end Intake

/-- The request that the words of a command line make. -/
def readArguments (ws : List String) : Except Stop Options := do
  let s ← Intake.words {} ws
  let s ← s.close
  match s.file with
  | none => .error (.refused (.missingFile s.given))
  | some file => return ⟨file, s.dumps, s.output, s.timings⟩

end Fern.CommandLine
