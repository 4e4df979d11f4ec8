import StructuredText.Token.Lexer

/-!
Cutting up a text match by match. A pattern does not know what comes behind its match, so a numeral
takes the first point of a `..` with it. The matcher sees that once it has the match: it takes the
second point too, gives the numeral, and keeps the `..` back until it is asked again.
-/

namespace StructuredText

namespace Number

/-- The longest match at the front of a text that starts with a digit: whether it is a real literal,
and its extent. -/
def longest (cs : List Char) : Bool × Nat :=
  if based cs ≠ 0 then (false, based cs)
  else
    let n := decimal cs
    match cs.drop n with
    | '.' :: rest => (true, n + 1 + fraction rest)
    | rest => if exponent rest = 0 then (false, n) else (true, n + scale rest)

end Number

structure Matcher where
  /-- What no pattern has taken yet. -/
  rest : List Char
  /-- The byte at which that begins. -/
  start : Nat
  /-- The tokens that were found and not given yet. -/
  waiting : List Token

namespace Matcher

def ofText (source : List Char) : Matcher :=
  ⟨source, 0, []⟩

/-- The kind and the extent of the longest match, in the way of `Token.munch`. Only numerals are not
the same. -/
def longest (c : Char) (cs : List Char) : TokenKind × Nat :=
  if c.isDigit then
    let (isReal, n) := Number.longest (c :: cs)
    (if isReal then .realLiteral else .intLiteral, n - 1)
  else Token.munch c cs

/-- Whether a match ends with the first of two points. -/
def splitsRange (t : Token) (rest : List Char) : Bool :=
  t.kind = .realLiteral && t.chars.getLast? = some '.' && rest.head? = some '.'

/-- The next token, and the matcher after it. -/
def next (m : Matcher) : Option Token × Matcher :=
  match m.waiting with
  | t :: waiting => (some t, { m with waiting })
  | [] =>
    match m.rest with
    | [] => (none, m)
    | c :: cs =>
      let extent := (longest c cs).2
      let t : Token := ⟨(longest c cs).1, c :: cs.take extent, m.start⟩
      let rest := cs.drop extent
      if splitsRange t rest then
        let numeral : Token := ⟨.intLiteral, t.chars.dropLast, m.start⟩
        let range : Token := ⟨.dotDot, ['.', '.'], numeral.stop⟩
        (some numeral, ⟨rest.tail, range.stop, [range]⟩)
      else (some t, ⟨rest, t.stop, []⟩)

/-- The matcher after a number of tokens. -/
def after : Nat → Matcher → Matcher
  | 0, m => m
  | n + 1, m => m.next.2.after n

/-- What a matcher gives when it is asked for the `n`-th time from now, counted from zero. -/
def token? (m : Matcher) (n : Nat) : Option Token :=
  (after n m).next.1

end Matcher

end StructuredText
