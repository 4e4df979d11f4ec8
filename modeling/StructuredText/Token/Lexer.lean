import StructuredText.Token.Basic
import StructuredText.Token.Keyword
import StructuredText.Token.Number
import StructuredText.Token.Duration

/-!
The tokens of a text. `munch` decides the kind and the extent of the token at the front of a text,
and `lex` cuts the whole text with it. No character is ever refused: what starts no token is
covered by `TokenKind.error` tokens, so the tokens of a text always make up the text.
-/

namespace StructuredText.Token

def isBlank (c : Char) : Bool :=
  c = ' ' || c = '\t' || c = '\r' || c = '\n' || c = '\x0c'

def endsLine (c : Char) : Bool :=
  c = '\r' || c = '\n'

def startsWord (c : Char) : Bool :=
  c.isAlpha || c = '_'

def continuesWord (c : Char) : Bool :=
  c.isAlphanum || c = '_'

/-- The characters that a time literal may hold after its `T#`, well formed or not. -/
def continuesDuration (c : Char) : Bool :=
  c.isAlphanum || c = '_' || c = '.'

/-- How many characters stand before the first `*)` of a text, if it has one. -/
def beforeCommentEnd : List Char → Option Nat
  | '*' :: ')' :: _ => some 0
  | _ :: cs => (beforeCommentEnd cs).map (· + 1)
  | [] => none

/-- How many characters a run of a class has at the front of a text. -/
def runLength (p : Char → Bool) (cs : List Char) : Nat :=
  (cs.takeWhile p).length

/-! ### Contests -/

/-- A name. -/
def namePattern : Pattern :=
  .seq (.one startsWord) (.many (.one continuesWord))

/-- What begins with `T#` or `t#`. -/
def timed (argument : Pattern) : Pattern :=
  .seq (.one fun c => c = 'T' || c = 't') (.seq (.char '#') argument)

/-- What a text that begins with `T#` may begin with: a time literal, as much as looks like one, or a
name, which ends before the sign. -/
def timeForms : List Contender :=
  (Duration.patterns Duration.units).map (fun p => ⟨.timeLiteral, 10, timed p⟩) ++
    [⟨.error, 1, timed (.many (.one continuesDuration))⟩, ⟨.ident, 2, namePattern⟩]

/-- What a text that begins with an apostrophe may begin with: a string, or what is left of one that has
no end. -/
def stringForms : List Contender :=
  [⟨.stringLiteral, 2, .seq (.char '\'') (.seq (.many (.one (· ≠ '\''))) (.char '\''))⟩,
    ⟨.error, 1, .seq (.char '\'') (.many (.one fun c => c ≠ '\'' && !endsLine c))⟩]

/-- What a text that begins with a brace may begin with: a pragma, or one that has no end. -/
def pragmaForms : List Contender :=
  [⟨.pragma, 2, .seq (.char '\x7b') (.seq (.many (.one (· ≠ '\x7d'))) (.char '\x7d'))⟩,
    ⟨.error, 1, .seq (.char '\x7b') (.many (.one (· ≠ '\x7d')))⟩]

/-- The token of the winner, for a text that begins with a character. -/
def contest (contenders : List Contender) (c : Char) (cs : List Char) : TokenKind × Nat :=
  match Contender.winner? contenders (c :: cs) with
  | some (winner, n) => (winner.kind, n - 1)
  | none => (.error, 0)

/-! ### Tokens -/

/-- A word is the longest keyword at its place, or else the longest name, or else an error that
goes as far as the text still looks like some keyword. A name as long as the keyword is the
keyword. -/
def word (c : Char) (cs : List Char) : TokenKind × Nat :=
  match Keyword.longest? (c :: cs) with
  | some (spelling, kind) =>
    if startsWord c && runLength continuesWord cs + 1 > spelling.length then
      (.ident, runLength continuesWord cs)
    else (kind, spelling.length - 1)
  | none =>
    if startsWord c then (.ident, runLength continuesWord cs)
    else (.error, Keyword.reach (c :: cs) - 1)

/-- The kind of the token that `c` starts, and how many of the characters `cs` after `c` belong
to it. -/
def munch (c : Char) (cs : List Char) : TokenKind × Nat :=
  if isBlank c then (.whitespace, runLength isBlank cs)
  else if c.isDigit then
    let (isReal, n) := Number.literal (c :: cs)
    (if isReal then .realLiteral else .intLiteral, n - 1)
  else
    match c, cs with
    | '/', '/' :: rest => (.lineComment, runLength (fun c => !endsLine c) rest + 1)
    | '/', _ => (.slash, 0)
    | '(', '*' :: rest =>
      match beforeCommentEnd rest with
      | some n => (.blockComment, n + 3)
      | none => (.error, cs.length)
    | '(', _ => (.lparen, 0)
    | '\x7b', _ => contest pragmaForms c cs
    | '\'', _ => contest stringForms c cs
    | 'T', '#' :: _ => contest timeForms c cs
    | 't', '#' :: _ => contest timeForms c cs
    | ';', _ => (.semicolon, 0)
    | ':', '=' :: _ => (.assign, 1)
    | ':', _ => (.colon, 0)
    | ',', _ => (.comma, 0)
    | '.', '.' :: _ => (.dotDot, 1)
    | '.', _ => if Number.decimal cs = 0 then (.dot, 0) else (.realLiteral, Number.fraction cs)
    | ')', _ => (.rparen, 0)
    | '[', _ => (.lbracket, 0)
    | ']', _ => (.rbracket, 0)
    | '=', '>' :: _ => (.arrow, 1)
    | '=', _ => (.eq, 0)
    | '<', '>' :: _ => (.neq, 1)
    | '<', '=' :: _ => (.ltEq, 1)
    | '<', _ => (.lt, 0)
    | '>', '=' :: _ => (.gtEq, 1)
    | '>', _ => (.gt, 0)
    | '+', _ => (.plus, 0)
    | '-', _ => (.minus, 0)
    | '*', '*' :: _ => (.power, 1)
    | '*', _ => (.star, 0)
    | _, _ => word c cs

/-- The token at the front of a text that goes on at byte `start`. -/
def first (start : Nat) (c : Char) (cs : List Char) : Token :=
  ⟨(munch c cs).1, c :: cs.take (munch c cs).2, start⟩

/-- The characters after that token. -/
def afterFirst (c : Char) (cs : List Char) : List Char :=
  cs.drop (munch c cs).2

theorem afterFirst_length_le (c : Char) (cs : List Char) :
    (afterFirst c cs).length ≤ cs.length := by
  simp [afterFirst]

theorem first_append_afterFirst (start : Nat) (c : Char) (cs : List Char) :
    (first start c cs).chars ++ afterFirst c cs = c :: cs := by
  simp [first, afterFirst]

/-- The tokens of a text that goes on at byte `start`. -/
def lexFrom (start : Nat) : List Char → List Token
  | [] => []
  | c :: cs => first start c cs :: lexFrom (first start c cs).stop (afterFirst c cs)
termination_by cs => cs.length
decreasing_by exact Nat.lt_succ_of_le (afterFirst_length_le c cs)

/-- The tokens of a text. -/
def lex (source : List Char) : List Token :=
  lexFrom 0 source

/-- Why the text of an error token is no token. -/
def errorMessage : List Char → String
  | 'T' :: '#' :: _ | 't' :: '#' :: _ => "malformed time literal"
  | '\'' :: _ => "unterminated string literal"
  | '(' :: '*' :: _ => "unterminated block comment"
  | '\x7b' :: _ => "unterminated pragma"
  | _ => "unrecognized input"

end StructuredText.Token
