import StructuredText.Token.Kind

/-!
Patterns of characters, and the contest between several of them: the pattern with the longest match at
the front of a text wins, and of those with equally long matches the one with the highest priority.
-/

namespace StructuredText

inductive Pattern where
  /-- No text. -/
  | never
  /-- The empty text. -/
  | empty
  /-- One character of a class. -/
  | one (accepts : Char → Bool)
  | seq (first second : Pattern)
  | either (left right : Pattern)
  /-- Any number of times. -/
  | many (body : Pattern)

namespace Pattern

/-- Whether the empty text matches. -/
def matchesEmpty : Pattern → Bool
  | .never | .one _ => false
  | .empty | .many _ => true
  | .seq first second => first.matchesEmpty && second.matchesEmpty
  | .either left right => left.matchesEmpty || right.matchesEmpty

/-- One pattern behind another, which is none if the first is none. -/
def followedBy : Pattern → Pattern → Pattern
  | .never, _ => .never
  | .empty, second => second
  | first, second => .seq first second

/-- Either of two patterns, of which one may be none. -/
def union : Pattern → Pattern → Pattern
  | .never, right => right
  | left, .never => left
  | left, right => .either left right

/-- What is still to match behind a character. -/
def after (c : Char) : Pattern → Pattern
  | .never | .empty => .never
  | .one accepts => if accepts c then .empty else .never
  | .seq first second =>
    if first.matchesEmpty then union ((first.after c).followedBy second) (second.after c)
    else (first.after c).followedBy second
  | .either left right => union (left.after c) (right.after c)
  | .many body => (body.after c).followedBy (.many body)

/-- Whether no text matches any more. -/
def isNever : Pattern → Bool
  | .never => true
  | _ => false

/-- Reads a text as long as something may still match. The numbers are how many characters were read, and
how many of them the longest match so far has. -/
def longestFrom (read : Nat) (longest : Option Nat) (p : Pattern) : List Char → Option Nat
  | [] => if p.matchesEmpty then some read else longest
  | c :: cs =>
    let longest := if p.matchesEmpty then some read else longest
    let p := p.after c
    if p.isNever then longest else p.longestFrom (read + 1) longest cs

/-- How many characters the longest match at the front of a text has, if there is any match. -/
def longest? (p : Pattern) (cs : List Char) : Option Nat :=
  p.longestFrom 0 none cs

/-! ### Patterns made of these -/

/-- A certain character. -/
def char (c : Char) : Pattern :=
  .one (· = c)

/-- Once at least. -/
def plus (p : Pattern) : Pattern :=
  .seq p (.many p)

/-- Once at most. -/
def optional (p : Pattern) : Pattern :=
  .either p .empty

/-- Any of some patterns. -/
def oneOf : List Pattern → Pattern
  | [] => .never
  | p :: ps => .either p (oneOf ps)

end Pattern

/-- A pattern that stands for a kind of token. -/
structure Contender where
  kind : TokenKind
  priority : Nat
  pattern : Pattern

namespace Contender

/-- The one that wins at the front of a text, and how many characters its match has. -/
def winner? : List Contender → List Char → Option (Contender × Nat)
  | [], _ => none
  | v :: others, cs =>
    match v.pattern.longest? cs, winner? others cs with
    | none, best => best
    | some n, none => some (v, n)
    | some n, some (w, m) =>
      if m < n || m = n && w.priority ≤ v.priority then some (v, n) else some (w, m)

end Contender

end StructuredText
