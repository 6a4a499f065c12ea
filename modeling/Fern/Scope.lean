/-!
Names and what they stand for.

* `Bindings`: the names of one scope. `Bindings.find?_set` and `Bindings.find?_foldl_set` say what
  new bindings change.
* `Scopes`: a stack of scopes. A name is looked up from the innermost scope outwards; new bindings
  go into the innermost one, and are dropped when there is none.
-/

namespace Fern

/-- The names of one scope, each with its value, in the order of their first binding. -/
abbrev Bindings (α : Type) := List (String × α)

namespace Bindings

variable {α : Type}

/-- The value bound to a name. -/
def find? (name : String) : Bindings α → Option α
  | [] => none
  | (n, a) :: bs => if n = name then some a else find? name bs

/-- Binds a name, in place of the binding it has, if any. -/
def set (name : String) (a : α) : Bindings α → Bindings α
  | [] => [(name, a)]
  | (n, b) :: bs => if n = name then (n, a) :: bs else (n, b) :: set name a bs

/-- A new binding changes the value of its own name only. -/
theorem find?_set (name other : String) (a : α) (bs : Bindings α) :
    find? other (set name a bs) = if name = other then some a else find? other bs := by
  induction bs with
  | nil => rfl
  | cons b bs ih =>
    obtain ⟨n, b⟩ := b
    by_cases hn : n = name <;> by_cases ho : name = other <;> simp_all [set, find?]

/-- Among several new bindings of a name the last one counts. -/
theorem find?_foldl_set {β : Type} (key : β → String) (value : β → α) (new : List β)
    (other : String) (bs : Bindings α) :
    find? other (new.foldl (fun bs b => bs.set (key b) (value b)) bs)
      = ((new.reverse.find? (key · = other)).map value).or (find? other bs) := by
  induction new generalizing bs with
  | nil => rfl
  | cons b new ih =>
    rw [List.foldl_cons, ih, find?_set, List.reverse_cons, List.find?_append]
    cases new.reverse.find? (key · = other) with
    | some c => rfl
    | none => by_cases hb : key b = other <;> simp [hb]

end Bindings

/-- Open scopes, the innermost first. -/
abbrev Scopes (α : Type) := List (Bindings α)

namespace Scopes

variable {α : Type}

/-- No open scope. -/
def empty : Scopes α := []

/-- Opens a scope without names. -/
def push (s : Scopes α) : Scopes α := [] :: s

/-- Closes the innermost scope, if one is open. -/
def pop (s : Scopes α) : Scopes α := s.tail

/-- Binds a name in the innermost scope. -/
def bind (name : String) (a : α) : Scopes α → Scopes α
  | [] => []
  | b :: s => b.set name a :: s

/-- The value of a name in the innermost scope that has it. -/
def lookup (name : String) : Scopes α → Option α
  | [] => none
  | b :: s => (b.find? name).or (lookup name s)

/-- The value of a name in the innermost scope. -/
def localLookup (name : String) : Scopes α → Option α
  | [] => none
  | b :: _ => b.find? name

/-- The number of open scopes. -/
def depth (s : Scopes α) : Nat := s.length

@[simp] theorem pop_push (s : Scopes α) : s.push.pop = s := rfl

end Scopes

end Fern
