/-!
The types of the language.

* `Ty.Base`: the named types, and the one that stands for a failed computation of a type.
* `Ty`: a named type behind any number of references; `Ty.text`, its written form.
* `Ty.reference`, `Ty.dereference`: one reference more, one fewer; `Ty.chain`: as many fewer as
  there are.
* `Ty.ofName?`: the types that a program can name.
-/

namespace Fern

/-- The types without references. `invalid` is the type of what could not be given one. -/
inductive Ty.Base where
  | void
  | bool
  | int
  | char
  | float
  | str
  | invalid
deriving Repr, DecidableEq

/-- The word for a type. -/
def Ty.Base.name : Base → String
  | void => "void"
  | bool => "bool"
  | int => "int"
  | char => "char"
  | float => "float"
  | str => "str"
  | invalid => "invalid"

/-- A type: a named one behind `depth` references. -/
structure Ty where
  base : Ty.Base
  depth : Nat := 0
deriving Repr, DecidableEq

namespace Ty

/-- The type of what has no value. -/
def void : Ty := ⟨.void, 0⟩
/-- The type of truth values. -/
def bool : Ty := ⟨.bool, 0⟩
/-- The type of whole numbers. -/
def int : Ty := ⟨.int, 0⟩
/-- The type of characters. -/
def char : Ty := ⟨.char, 0⟩
/-- The type of numbers with a fraction. -/
def float : Ty := ⟨.float, 0⟩
/-- The type of texts. -/
def str : Ty := ⟨.str, 0⟩
/-- The type of what could not be given one. -/
def invalid : Ty := ⟨.invalid, 0⟩

/-- One reference more. -/
def reference (t : Ty) : Ty := { t with depth := t.depth + 1 }

/-- One reference fewer. A `str` itself yields its element, a `char`; other types without a
reference have nothing to strip. -/
def dereference (t : Ty) : Option Ty :=
  if 0 < t.depth then some { t with depth := t.depth - 1 }
  else if t.base = .str then some char
  else none

/-- Texts and references have elements. -/
def isIndexable (t : Ty) : Bool := t.base = .str || 0 < t.depth

/-- Whether the type stands for a failure, behind whatever references. -/
def isInvalid (t : Ty) : Bool := t.base = .invalid

/-- The types with arithmetic. -/
def isNumeric (t : Ty) : Bool := t.depth = 0 && (t.base = .int || t.base = .float)

/-- A type is written as one `&` per reference and then its name. -/
def text (t : Ty) : String :=
  String.ofList (List.replicate t.depth '&') ++ t.base.name

/-- The types that have a name in programs. A function without a stated type returns `void`, which
has none. -/
def ofName? (name : String) : Option Base :=
  [("int", Base.int), ("float", Base.float), ("char", Base.char), ("str", Base.str),
    ("bool", Base.bool)].lookup name

/-- Stripping a reference brings a type nearer to one that has nothing to strip. -/
theorem size_lt_of_dereference {t u : Ty} (h : t.dereference = some u) :
    u.depth + (if u.base = .str then 1 else 0) < t.depth + (if t.base = .str then 1 else 0) := by
  unfold dereference at h
  split at h
  · cases h; simp only; omega
  · split at h
    · next hs => cases h; simp [char, hs]
    · cases h

/-- A type and what is left of it, reference by reference, as far as there is something to strip. -/
def chain (t : Ty) : List Ty :=
  match _h : t.dereference with
  | none => [t]
  | some u => t :: chain u
termination_by t.depth + (if t.base = .str then 1 else 0)
decreasing_by exact size_lt_of_dereference _h

/-- What can be indexed has an element type. -/
theorem dereference_isSome (t : Ty) : t.dereference.isSome = t.isIndexable := by
  unfold dereference isIndexable
  split
  · simp [*]
  · split <;> simp_all

/-- A reference leads back to what it refers to. -/
@[simp] theorem dereference_reference (t : Ty) : t.reference.dereference = some t := by
  simp [reference, dereference]

end Ty

end Fern
