/-!
The extent of a numeric literal at the front of a text. Each function here counts the characters of
the longest match of one part of a literal, and gives `0` where there is none.
-/

namespace StructuredText.Number

/-- Digits, each of which may have one underscore before it. -/
def groups (digit : Char → Bool) : List Char → Nat
  | [] => 0
  | [d] => if digit d then 1 else 0
  | d :: e :: cs =>
    if digit d then groups digit (e :: cs) + 1
    else if d = '_' && digit e then groups digit cs + 2
    else 0

/-- A decimal numeral: a digit, more digits in groups, and possibly an underscore at the end. -/
def decimal : List Char → Nat
  | [] => 0
  | d :: cs =>
    if d.isDigit then
      let n := groups Char.isDigit cs
      if (cs.drop n).head? = some '_' then n + 2 else n + 1
    else 0

/-- The optional sign of an exponent. -/
def sign : List Char → Nat
  | '+' :: _ | '-' :: _ => 1
  | _ => 0

/-- An exponent, which has to have a digit. -/
def exponent : List Char → Nat
  | [] => 0
  | e :: cs =>
    if e = 'e' || e = 'E' then
      let n := decimal (cs.drop (sign cs))
      if n = 0 then 0 else n + sign cs + 1
    else 0

/-- The letter that may end a real literal. -/
def suffix : List Char → Nat
  | c :: _ => if c = 'L' || c = 'l' || c = 'J' || c = 'j' then 1 else 0
  | [] => 0

/-- An optional exponent and then an optional suffix. -/
def scale (cs : List Char) : Nat :=
  exponent cs + suffix (cs.drop (exponent cs))

/-- What may follow the point of a real literal: a fraction, an exponent and a suffix, each of them
optional. -/
def fraction (cs : List Char) : Nat :=
  decimal cs + scale (cs.drop (decimal cs))

def isBinary (c : Char) : Bool :=
  c = '0' || c = '1'

def isOctal (c : Char) : Bool :=
  '0' ≤ c && c ≤ '7'

def isHexadecimal (c : Char) : Bool :=
  c.isDigit || ('a' ≤ c && c ≤ 'f') || ('A' ≤ c && c ≤ 'F')

/-- An integer with an explicit base, `2#`, `8#` or `16#`. -/
def based : List Char → Nat
  | '2' :: '#' :: cs => count 2 (groups isBinary cs)
  | '8' :: '#' :: cs => count 2 (groups isOctal cs)
  | '1' :: '6' :: '#' :: cs => count 3 (groups isHexadecimal cs)
  | _ => 0
where
  count (mark digits : Nat) : Nat :=
    if digits = 0 then 0 else mark + digits

/-- A literal that starts with a digit: whether it is a real one, and its extent. A numeral before
`..` is an integer, so that `1..5` is a range and not `1.` before `.5`. -/
def literal (cs : List Char) : Bool × Nat :=
  if based cs ≠ 0 then (false, based cs)
  else
    let n := decimal cs
    match cs.drop n with
    | '.' :: '.' :: _ => (false, n)
    | '.' :: rest => (true, n + 1 + fraction rest)
    | rest => if exponent rest = 0 then (false, n) else (true, n + scale rest)

/-- Whether the characters of an integer literal give its base. -/
def isBased (cs : List Char) : Bool :=
  cs.contains '#'

end StructuredText.Number
