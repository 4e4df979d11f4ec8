import StructuredText.Toml.Number

/-!
Dates and times of the TOML format, of which only the form is looked at. Every number in them has
its fixed width, except the fraction of a second.
-/

namespace StructuredText.Toml.DateTime

/-- A number of so many digits, and the text after it. -/
def field? (width : Nat) (cs : List Char) : Option (Nat × List Char) := do
  let run := cs.takeWhile Char.isDigit
  if run.length = width then return (← natural? 10 run, cs.dropWhile Char.isDigit) else none

/-- The text after a number of two digits that is not above a limit. -/
def dropPair? (most : Nat) (cs : List Char) : Option (List Char) := do
  let (n, rest) ← field? 2 cs
  if n ≤ most then some rest else none

def dropMark? (mark : Char) : List Char → Option (List Char)
  | [] => none
  | c :: cs => if c = mark then some cs else none

/-! ### Dates -/

def isLeap (year : Nat) : Bool :=
  year % 4 = 0 && (year % 100 ≠ 0 || year % 400 = 0)

def daysIn (year month : Nat) : Nat :=
  match month with
  | 2 => if isLeap year then 29 else 28
  | 4 | 6 | 9 | 11 => 30
  | _ => 31

def isDay (year month day : Nat) : Bool :=
  1 ≤ month && month ≤ 12 && 1 ≤ day && day ≤ daysIn year month

/-- The text after a date. -/
def dropDate? (cs : List Char) : Option (List Char) := do
  let (year, cs) ← field? 4 cs
  let (month, cs) ← field? 2 (← dropMark? '-' cs)
  let (day, cs) ← field? 2 (← dropMark? '-' cs)
  if isDay year month day then some cs else none

/-! ### Times -/

/-- The text after an optional fraction, which has a digit. -/
def dropFraction? : List Char → Option (List Char)
  | '.' :: cs =>
    if cs.head?.any Char.isDigit then some (cs.dropWhile Char.isDigit) else none
  | cs => some cs

/-- The text after optional seconds, of which there are sixty-one for the sake of leap seconds. -/
def dropSeconds? : List Char → Option (List Char)
  | ':' :: cs => do dropFraction? (← dropPair? 60 cs)
  | cs => some cs

/-- The text after an hour and a minute. -/
def dropMinutes? (cs : List Char) : Option (List Char) := do
  dropPair? 59 (← dropMark? ':' (← dropPair? 23 cs))

def dropTime? (cs : List Char) : Option (List Char) := do
  dropSeconds? (← dropMinutes? cs)

/-- Whether the text is an offset from universal time, or empty. -/
def isOffset : List Char → Bool
  | [] => true
  | c :: cs =>
    ((c = 'Z' || c = 'z') && cs.isEmpty) ||
      ((c = '+' || c = '-') && (dropMinutes? cs).any List.isEmpty)

/-- Whether the text is a date, a time, or both of them and possibly an offset. -/
def isDateTime (cs : List Char) : Bool :=
  match dropDate? cs with
  | none => (dropTime? cs).any List.isEmpty
  | some [] => true
  | some (c :: cs) => (c = 'T' || c = 't' || c = ' ') && (dropTime? cs).any isOffset

end StructuredText.Toml.DateTime
