import StructuredText.Token.Basic

/-!
A place in the tokens of a text, as the parser has it: all tokens are there, trivia too, and every look
ahead walks over them.
-/

namespace StructuredText

structure Cursor where
  /-- The tokens that are still to come. -/
  rest : List Token
  /-- How many bytes the text has. -/
  size : Nat
  /-- The span of the last token that was passed and is no trivia. -/
  previous : Span

namespace Cursor

/-- At the front of a text. -/
def start (tokens : List Token) (size : Nat) : Cursor :=
  ⟨tokens, size, ⟨0, 0⟩⟩

/-! ### Looking ahead -/

/-- Of some tokens, the one with a number, trivia not counted. -/
def nth : Nat → List Token → Option Token
  | _, [] => none
  | n, t :: ts =>
    if t.isTrivia then nth n ts
    else
      match n with
      | 0 => some t
      | n + 1 => nth n ts

/-- The token some places ahead. -/
def tokenAt (c : Cursor) (n : Nat) : Option Token :=
  nth n c.rest

/-- The kind of the token some places ahead, `eof` behind the last one. -/
def kindAt (c : Cursor) (n : Nat) : TokenKind :=
  (c.tokenAt n).elim .eof Token.kind

def kind (c : Cursor) : TokenKind :=
  c.kindAt 0

/-- The characters of the current token. -/
def chars (c : Cursor) : List Char :=
  (c.tokenAt 0).elim [] Token.chars

/-- The span of the current token, which is empty at the end of the text. -/
def span (c : Cursor) : Span :=
  (c.tokenAt 0).elim ⟨c.size, c.size⟩ Token.span

/-- The kind of the first of some tokens that is neither trivia nor a pragma. -/
def firstKind : List Token → TokenKind
  | [] => .eof
  | t :: ts => if !t.isTrivia && t.kind ≠ .pragma then t.kind else firstKind ts

def kindAfterPragmas (c : Cursor) : TokenKind :=
  firstKind c.rest

/-- Whether a `:` is among some tokens outside of all brackets, before the statement ends. The numbers
count the open parentheses and the open square brackets. -/
def colonAmong : (parens brackets : Nat) → List Token → Bool
  | _, _, [] => false
  | parens, brackets, t :: ts =>
    if t.isTrivia then colonAmong parens brackets ts
    else
      match t.kind with
      | .lparen => colonAmong (parens + 1) brackets ts
      | .rparen => colonAmong (parens - 1) brackets ts
      | .lbracket => colonAmong parens (brackets + 1) ts
      | .rbracket => colonAmong parens (brackets - 1) ts
      | .colon => if parens = 0 && brackets = 0 then true else colonAmong parens brackets ts
      | .semicolon | .assign | .kwThen | .kwOf | .kwElse | .kwElsif | .kwEndIf | .kwEndCase
      | .kwEndFunctionBlock | .kwEndFunction | .kwEndProgram =>
        if parens = 0 && brackets = 0 then false else colonAmong parens brackets ts
      | _ => colonAmong parens brackets ts

/-- Whether a case label starts at the current token, if it is one that may start a label. -/
def hasLabelAhead (c : Cursor) : Bool :=
  colonAmong 0 0 c.rest

/-- How many tokens are still to come, trivia not counted. -/
def left (c : Cursor) : Nat :=
  c.rest.countP fun t => !t.isTrivia

/-! ### Going on -/

/-- Goes through the first of some tokens that is no trivia. -/
def pass (c : Cursor) : List Token → Cursor
  | [] => { c with rest := [] }
  | t :: ts => if t.isTrivia then c.pass ts else { c with rest := ts, previous := t.span }

/-- Goes through the current token. -/
def bump (c : Cursor) : Cursor :=
  c.pass c.rest

end Cursor

end StructuredText
