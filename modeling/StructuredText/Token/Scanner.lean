import StructuredText.Token.Lexer

/-!
Scanning a text token by token. Beside the tokens, a scanner shows the stretch of text that it has
looked at last. That is the text of the last token, except where a numeral stands before `..`: such
a range is recognised in one look, and both of its tokens come from it.
-/

namespace StructuredText

structure Scanner where
  rest : List Char
  start : Nat
  /-- The stretch looked at last. -/
  seen : List Char
  /-- Whether the token to come was seen with the one before it. -/
  ahead : Bool

namespace Scanner

def ofText (source : List Char) : Scanner :=
  ⟨source, 0, [], false⟩

/-- Whether a token is a plain numeral before `..`. -/
def opensRange (t : Token) (rest : List Char) : Bool :=
  t.kind = .intLiteral && !Number.isBased t.chars && ['.', '.'].isPrefixOf rest

/-- The next token, and the scanner after it. -/
def next (s : Scanner) : Option Token × Scanner :=
  match s.rest with
  | [] => (none, { s with seen := [], ahead := false })
  | c :: cs =>
    let t := Token.first s.start c cs
    let rest := Token.afterFirst c cs
    let range := opensRange t rest
    let seen := if s.ahead then s.seen else if range then t.chars ++ ['.', '.'] else t.chars
    (some t, ⟨rest, t.stop, seen, range⟩)

/-- What a number of steps give: the token of each, if any, and the stretch seen by then. -/
def steps : Nat → Scanner → List (Option Token × List Char)
  | 0, _ => []
  | n + 1, s => (s.next.1, s.next.2.seen) :: steps n s.next.2

end Scanner

end StructuredText
