import Fern.CommandLine.Session

/-!
What becomes of a request to compile a file.

* `Host`: what a run finds around it, which is files and the program that makes code.
* `openSession`: the session for a file that was read, or the outcome if there is nothing to
  compile.
* `finish`: the outcome once the passes have run, and the files afterwards. The text of the module
  is written if a file for it was named.
* `runWith`: what a request prints on a host, its exit status, and the files afterwards.
-/

namespace Fern.CommandLine

/-- What a run finds around it: files of some kind, and the program that makes code. -/
structure Host (Files : Type) extends Backend where
  /-- The text of the file at a path, or the reason why there is none. -/
  read : Files → String → Except String String
  /-- The files after a text is written under a path, or the reason why it cannot be. -/
  write : Files → String → String → Except String Files

/-- A run that ends with a report of failure. -/
def failure (text : String) : Outcome := ⟨⟨"", text⟩, 1⟩

/-- The session for what was read from the file. A file that cannot be read, or holds nothing but
blanks, has none. -/
def openSession (o : Options) : Except String String → Except Outcome Session
  | .error reason => .error (failure ("Failed to read " ++ o.file ++ ": " ++ reason ++ "\n"))
  | .ok source =>
    if Text.isAllBlank source.toList then .error (failure "File is empty\n")
    else .ok ⟨source, displayName o.file, o⟩

variable {Files : Type}

/-- The outcome of a run whose passes have run, and the files afterwards. The status is 1 if a pass
has no product, or the module cannot be written. -/
def finish (host : Host Files) (o : Options) (files : Files) (steps : List Step) :
    Option String → Outcome × Files
  | none => (⟨.join (steps.map Step.output), 1⟩, files)
  | some text =>
    match o.output with
    | none => (⟨.join (steps.map Step.output), 0⟩, files)
    | some path =>
      match host.write files path text with
      | .ok files => (⟨.join (steps.map Step.output), 0⟩, files)
      | .error reason =>
        let stderr := "Failed to write " ++ path ++ ": " ++ reason ++ "\n"
        (⟨.join (steps.map Step.output ++ [⟨"", stderr⟩]), 1⟩, files)

/-- What a request prints on a host, its exit status, and the files afterwards; `elapsed` tells how
long each pass took. -/
def runWith (host : Host Files) (files : Files) (elapsed : Lap → String) (o : Options) :
    Outcome × Files :=
  match openSession o (host.read files o.file) with
  | .error outcome => (outcome, files)
  | .ok session =>
    let (steps, text) := session.runFrom host.toBackend elapsed .text
    finish host o files steps text

end Fern.CommandLine
