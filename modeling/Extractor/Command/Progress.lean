import Extractor.Decimal.SixDigits
import Extractor.Path
/-!
# Progress of a directory run

One line for each file that was written, and one for the whole run with the time that it took.
-/

namespace Extractor.Progress

/-- A text between control sequences, which are left out where colours are not wanted. -/
def paint (color : Bool) (style text : String) : String :=
  if color then "\x1b[" ++ style ++ "m" ++ text ++ "\x1b[0m" else text

def written (color : Bool) (specification output : String) : String :=
  let name := (Path.fileName? output).getD output
  "  " ++ paint color "2" specification ++ " -> " ++ paint color "32" name

def finished (color : Bool) (count : Nat) (elapsed : String) : String :=
  let noun := if count = 1 then "parser" else "parsers"
  paint color "1" ("Generated " ++ toString count ++ " " ++ noun ++ " (" ++ elapsed ++ ")")

/-- The largest unit of time that is not longer than so many nanoseconds, in nanoseconds. -/
def timeUnit (nanos : Nat) : Nat × String :=
  if 1000000000 ≤ nanos then (1000000000, "s")
  else if 1000000 ≤ nanos then (1000000, "ms")
  else if 1000 ≤ nanos then (1000, "µs")
  else (1, "ns")

/-- A time with one decimal, a half of its unit going to the even neighbour. -/
def elapsed (nanos : Nat) : String :=
  let (size, name) := timeUnit nanos
  let tenths := Decimal.roundHalfEven (nanos * 10) size
  toString (tenths / 10) ++ "." ++ toString (tenths % 10) ++ name

end Extractor.Progress
