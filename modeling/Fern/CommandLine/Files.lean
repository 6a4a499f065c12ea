import Fern.CommandLine.Compilation

/-!
Files in memory, to try out command lines without a disk.

* `FileTree`: a directory with files, and nothing outside it.
* `FileTree.read`: the text of a file, or the reason why there is none.
* `FileTree.host`: the host with these files that makes no code.
-/

namespace Fern.CommandLine

/-- Why a file gives no text. -/
inductive ReadFailure where
  | notFound
  | isDirectory
  | notDirectory
  | notText
  | other (reason : String)
deriving Repr, DecidableEq

/-- The wording of a failure. -/
def ReadFailure.reason : ReadFailure → String
  | notFound => "No such file or directory (os error 2)"
  | isDirectory => "Is a directory (os error 21)"
  | notDirectory => "Not a directory (os error 20)"
  | notText => "stream did not contain valid UTF-8"
  | other reason => reason

/-- The files in a directory, each by the names on the way to it. Outside it there is nothing. -/
structure FileTree where
  files : List (List String × ByteArray)

namespace FileTree

/-- Where a path leads. -/
inductive Place where
  /-- Somewhere below the working directory, or to it, by the names on the way. -/
  | within (names : List String)
  /-- To a directory above the working directory, of which nothing else is known. -/
  | above
deriving Repr, DecidableEq

/-- The bytes of a file. -/
def bytes? (t : FileTree) (names : List String) : Option ByteArray := t.files.lookup names

/-- Whether names lead to a directory: the working one, or one with files in it. -/
def isDirectory (t : FileTree) (names : List String) : Bool :=
  names.isEmpty || t.files.any fun f => names.isPrefixOf f.1 && names.length < f.1.length

/-- One name further on a path. -/
def step (t : FileTree) (p : Place) (name : String) : Except ReadFailure Place :=
  match p with
  | .above => if isHere name || name = ".." then .ok .above else .error .notFound
  | .within names =>
    if !t.isDirectory names then .error .notDirectory
    else if isHere name then .ok p
    else if name = ".." then .ok (if names.isEmpty then .above else .within names.dropLast)
    else
      let names := names ++ [name]
      if t.isDirectory names || (t.bytes? names).isSome then .ok (.within names)
      else .error .notFound

/-- Where a path leads. A path that begins at the root leads out of the working directory. -/
def resolve (t : FileTree) (path : String) : Except ReadFailure Place :=
  let names := segments path
  names.foldlM t.step (if names.head? = some "" then .above else .within [])

/-- The text of a file. -/
def read (t : FileTree) (path : String) : Except ReadFailure String := do
  match ← t.resolve path with
  | .above => .error .isDirectory
  | .within names =>
    match t.bytes? names with
    | none => .error .isDirectory
    | some bytes =>
      match String.fromUTF8? bytes with
      | some text => return text
      | none => .error .notText

/-- A host with these files. Without a program that makes code, nothing is written. -/
def host : Host FileTree where
  toBackend := .absent
  read t path := (t.read path).mapError ReadFailure.reason
  write t _ _ := .ok t

/-- A tree with one more file, in place of one at the same path. -/
def insert (t : FileTree) (path : String) (content : ByteArray) : FileTree :=
  let names := (segments path).filter (!isHere ·)
  ⟨(names, content) :: t.files.filter (·.1 ≠ names)⟩

/-- The paths of the files, in order. -/
def paths (t : FileTree) : List String :=
  (t.files.map fun f => "/".intercalate f.1).mergeSort

end FileTree

end Fern.CommandLine
