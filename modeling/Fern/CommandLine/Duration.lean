/-!
Lengths of time in print: `durationText` gives a number of nanoseconds in the largest unit that
fits, with the fraction that remains and no zeros at its end.
-/

namespace Fern.CommandLine

/-- The digits of a number after the point, where its last `places` digits stand there, without
zeros at the end. -/
def fractionText (n places : Nat) : String :=
  let scale := Nat.pow 10 places
  let digits := (Nat.toDigits 10 (scale + n % scale)).tail
  match (digits.reverse.dropWhile (· = '0')).reverse with
  | [] => ""
  | ds => String.ofList ('.' :: ds)

/-- A number of nanoseconds in a unit that moves the point by `places` digits. -/
def inUnit (n places : Nat) (unit : String) : String :=
  toString (n / Nat.pow 10 places) ++ fractionText n places ++ unit

/-- A length of time, given in nanoseconds. -/
def durationText (n : Nat) : String :=
  if n < 1000 then inUnit n 0 "ns"
  else if n < 1000000 then inUnit n 3 "µs"
  else if n < 1000000000 then inUnit n 6 "ms"
  else inUnit n 9 "s"

end Fern.CommandLine
