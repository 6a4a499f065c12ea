/-!
How alike two texts are.

* `Overlap`, `overlap`: the characters that two texts share at about the same place.
* `likeness`: a number from 0, for nothing shared, to 1, for equal texts.
* `mostAlike?`: the name that a misspelt word most likely stands for.
-/

namespace Fern.Text

/-- The characters that two texts share, in the order of either text. -/
structure Overlap where
  first : List Char
  second : List Char
deriving Repr, DecidableEq

/-- Takes a character that equals `c` out of the `width` characters after the first `skip`: the
first that is still free. The flag of a character says whether it is taken. -/
def takeNear (c : Char) : (skip width : Nat) → List (Char × Bool) → Option (List (Char × Bool))
  | _, _, [] => none
  | skip + 1, width, d :: ds => (takeNear c skip width ds).map (d :: ·)
  | 0, 0, _ :: _ => none
  | 0, width + 1, (d, taken) :: ds =>
    if !taken && c == d then some ((d, true) :: ds)
    else (takeNear c 0 width ds).map ((d, taken) :: ·)

/-- Pairs the characters of a text that starts at place `i` with free ones at most `reach` places
away. The paired characters come first, then what is taken. -/
def pairOff (reach : Nat) : Nat → List Char → List (Char × Bool) → List Char × List (Char × Bool)
  | _, [], ds => ([], ds)
  | i, c :: cs, ds =>
    match takeNear c (i - reach) (i + reach + 1 - (i - reach)) ds with
    | some ds =>
      let (paired, ds) := pairOff reach (i + 1) cs ds
      (c :: paired, ds)
    | none => pairOff reach (i + 1) cs ds

/-- The characters that two texts share, where the places of a pair differ by less than half of the
longer length. -/
def overlap (a b : List Char) : Overlap :=
  let (paired, marked) := pairOff (max a.length b.length / 2 - 1) 0 a (b.map (·, false))
  ⟨paired, (marked.filter Prod.snd).map Prod.fst⟩

/-- How many pairs of shared characters have changed places: two that differ make one exchange. -/
def Overlap.exchanges (o : Overlap) : Nat :=
  (o.first.zip o.second).countP (fun p => p.1 != p.2) / 2

/-- The mean of three shares: of the first text that is shared, of the second that is, and of the
shared characters that stand in the same order. It is rounded to double precision at every step,
and so are comparisons with it. -/
def likeness (a b : List Char) : Float :=
  let o := overlap a b
  let shared := o.first.length
  if a.isEmpty && b.isEmpty then 1
  else if shared = 0 then 0
  else
    (shared.toFloat / a.length.toFloat + shared.toFloat / b.length.toFloat +
      (shared - o.exchanges).toFloat / shared.toFloat) / 3

/-- Only a name that is more alike than this is taken for what was meant. -/
def likenessBound : Float := 0.7

/-- The name that is most like a word, the last of them if several are, provided that it is alike
enough. -/
def mostAlike? (word : String) (names : List String) : Option String :=
  let best := names.foldl (fun (best : Option (Float × String)) name =>
    let l := likeness word.toList name.toList
    if likenessBound < l && best.all (fun b => b.1 ≤ l) then some (l, name) else best) none
  best.map Prod.snd

end Fern.Text
