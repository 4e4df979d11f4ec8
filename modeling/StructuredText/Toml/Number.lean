import StructuredText.Toml.Value

/-!
Numbers of the TOML format. An integer may be given in a base, and underscores may divide the digits
of any number. Of numbers with a fraction or an exponent only the form is looked at.
-/

namespace StructuredText.Toml

/-! ### Digits -/

/-- The digit that a character is, in any base up to sixteen. -/
def hexDigit? (c : Char) : Option Nat :=
  if c.isDigit then some (c.toNat - '0'.toNat)
  else if 'a' ≤ c && c ≤ 'f' then some (c.toNat - 'a'.toNat + 10)
  else if 'A' ≤ c && c ≤ 'F' then some (c.toNat - 'A'.toNat + 10)
  else none

def isHexDigit (c : Char) : Bool :=
  (hexDigit? c).isSome

def digit? (base : Nat) (c : Char) : Option Nat :=
  (hexDigit? c).filter (· < base)

/-- The number of some digits, of which there is at least one. -/
def natural? (base : Nat) (cs : List Char) : Option Nat :=
  if cs.isEmpty then none
  else cs.foldlM (fun n c => do return base * n + (← digit? base c)) 0

namespace Number

/-- Whether every underscore of a text stands between two digits. The flag tells whether a digit is
before the text. -/
def dividesAfter (isDigit : Char → Bool) : (afterDigit : Bool) → List Char → Bool
  | _, [] => true
  | afterDigit, c :: cs =>
    if c = '_' then afterDigit && cs.head?.any isDigit && dividesAfter isDigit false cs
    else dividesAfter isDigit (isDigit c) cs

/-- Whether every underscore stands between two digits. No sign and no base counts as a digit, so
the text is looked at without them. -/
def divides (isDigit : Char → Bool) (cs : List Char) : Bool :=
  dividesAfter isDigit false cs

/-- The text without the underscores that divide it. -/
def undivided (cs : List Char) : List Char :=
  cs.filter (· ≠ '_')

/-- An integer of a value, or something that only looks like one. -/
def integer : Option Int → Value
  | some n => .integer n
  | none => .other

/-! ### Integers with a base -/

/-- The base that a number starts with, and its digits. -/
def base? : List Char → Option (Nat × List Char)
  | '0' :: 'x' :: cs => some (16, cs)
  | '0' :: 'o' :: cs => some (8, cs)
  | '0' :: 'b' :: cs => some (2, cs)
  | _ => none

/-- A number in a base. It may lack all its digits, and then it has no value. -/
def based? (base : Nat) (cs : List Char) : Option Value :=
  if (undivided cs).all (fun c => (digit? base c).isSome) && divides isHexDigit cs then
    some (integer ((natural? base (undivided cs)).map Int.ofNat))
  else none

/-! ### Numbers with a fraction or an exponent -/

def continuesRun (c : Char) : Bool :=
  c.isDigit || c = '_'

/-- The text after digits and underscores, among which there is a digit. -/
def dropRun? (cs : List Char) : Option (List Char) :=
  if (cs.takeWhile continuesRun).any Char.isDigit then some (cs.dropWhile continuesRun) else none

def dropSign : List Char → List Char
  | '+' :: cs => cs
  | '-' :: cs => cs
  | cs => cs

/-- Whether the text is an exponent, or empty. -/
def isExponent : List Char → Bool
  | [] => true
  | e :: cs => (e = 'e' || e = 'E') && (dropRun? (dropSign cs)).any List.isEmpty

/-- Whether the text is a fraction and an exponent, each of them optional. -/
def isScale : List Char → Bool
  | '.' :: cs => (dropRun? cs).any isExponent
  | cs => isExponent cs

/-- Whether the digits in front start with a zero that has no place there. -/
def isPadded (cs : List Char) : Bool :=
  cs.head? = some '0' && 1 < (cs.takeWhile continuesRun).countP Char.isDigit

def isReal (cs : List Char) : Bool :=
  !isPadded cs && (dropRun? cs).any isScale

def marksReal (c : Char) : Bool :=
  c = '.' || c = 'e' || c = 'E'

/-! ### Decimal numbers -/

/-- A number from behind its sign on; the factor stands for the sign. An integer whose digits are
divided may go on with what is no digit, and then it has no value. -/
def decimal? (factor : Int) (cs : List Char) : Option Value :=
  let value := integer ((natural? 10 (undivided cs)).map fun n => factor * n)
  let rest := cs.dropWhile Char.isDigit
  if rest.any marksReal then
    if isReal cs && divides Char.isDigit cs then some .other else none
  else if rest.isEmpty then if cs.isEmpty || isPadded cs then none else some value
  else if rest.head? = some '_' && cs.head? ≠ some '0' && divides isHexDigit cs then some value
  else none

end Number

/-- The number that a word is. -/
def number? (word : List Char) : Option Value :=
  match Number.base? word, word with
  | some (base, digits), _ => Number.based? base digits
  | none, '+' :: cs => Number.decimal? 1 cs
  | none, '-' :: cs => Number.decimal? (-1) cs
  | none, cs => Number.decimal? 1 cs

end StructuredText.Toml
