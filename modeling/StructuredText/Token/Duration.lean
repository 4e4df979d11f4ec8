import StructuredText.Token.Pattern

/-!
The patterns of durations, the part of a time literal after `T#`: amounts of consecutive units from days
down to milliseconds, of which only the last may have a fraction. There is one pattern for each unit that
may come first; it has one chain of units for each unit that may come last.
-/

namespace StructuredText.Duration

/-- The units from the largest to the smallest, as they are written in lower case. -/
def units : List (List Char) :=
  [['d'], ['h'], ['m'], ['s'], ['m', 's']]

/-- A unit in any letter case. -/
def written : List Char → Pattern
  | [] => .empty
  | u :: us => .seq (.one fun c => c.toLower = u) (written us)

def digits : Pattern :=
  .plus (.one Char.isDigit)

/-- An amount of a unit without a fraction. -/
def part (unit : List Char) : Pattern :=
  .seq digits (written unit)

/-- An amount of a unit, possibly with a fraction. -/
def lastPart (unit : List Char) : Pattern :=
  .seq digits (.seq (.optional (.seq (.char '.') digits)) (written unit))

/-- The chains that begin with the first of some units, one for each that they may end with. -/
def chains : List (List Char) → List Pattern
  | [] => []
  | unit :: smaller => lastPart unit :: (chains smaller).map (.seq (part unit))

/-- One pattern for each of some units that may come first. -/
def patterns : List (List Char) → List Pattern
  | [] => []
  | unit :: smaller => .oneOf (chains (unit :: smaller)) :: patterns smaller

end StructuredText.Duration
