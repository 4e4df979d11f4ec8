import StructuredText.Text.Blank

/-!
The values that literals and pragmas stand for.
-/

namespace StructuredText

namespace Integer

def digit (c : Char) : Nat :=
  if c.isDigit then c.toNat - '0'.toNat
  else c.toLower.toNat - 'a'.toNat + 10

/-- The value of a digit, if it is one of a base. -/
def digit? (base : Nat) (c : Char) : Option Nat :=
  if c.isAlphanum && digit c < base then some (digit c) else none

/-- The text of a number without the plus sign that may stand before it. -/
def unsigned : List Char → List Char
  | '+' :: cs => cs
  | cs => cs

/-- The number behind a first part with a number of its own, and one more digit. -/
def next? (base bound n : Nat) (c : Char) : Option Nat := do
  let d ← digit? base c
  if base * n + d < bound then some (base * n + d) else none

/-- The number that a text stands for in a base, if it has only digits, at least one, and is below a
bound. -/
def parse? (base bound : Nat) (cs : List Char) : Option Nat :=
  match unsigned cs with
  | [] => none
  | digits => digits.foldlM (next? base bound) 0

/-- The base of an integer literal, which stands before a `#` if there is one, and the text of its
digits. -/
def split? (cs : List Char) : Option (Nat × List Char) :=
  match cs.dropWhile (· ≠ '#') with
  | [] => some (10, cs)
  | _ :: digits => (parse? 10 UInt32.size (cs.takeWhile (· ≠ '#'))).map fun base => (base, digits)

/-- The values of integer literals are below this number. -/
def bound : Nat := UInt64.size

/-- The value of an integer literal, of which underscores are no part. -/
def value? (cs : List Char) : Option Nat := do
  let (base, digits) ← split? cs
  parse? base bound (digits.filter (· ≠ '_'))

end Integer

namespace Delimited

/-- The text between two marks. -/
def inner? (opening closing : Char) : List Char → Option (List Char)
  | [] => none
  | c :: cs => if c = opening && cs.getLast? = some closing then some cs.dropLast else none

/-- The text of a pragma without braces and surrounding blanks. -/
def pragma? (cs : List Char) : Option (List Char) :=
  (inner? '\x7b' '\x7d' cs).map Blank.trim

/-- The text of a string literal without its quotes. -/
def string? (cs : List Char) : Option (List Char) :=
  inner? '\'' '\'' cs

end Delimited

end StructuredText
