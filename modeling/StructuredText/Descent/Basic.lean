import StructuredText.Descent.Cursor
import StructuredText.Diagnostic
import StructuredText.Grammar.Lookahead
import StructuredText.Grammar.Rule

/-!
The state of the parser, and the steps that all constructs are parsed with. The parser is a recursive
descent over the tokens of a text. It never fails: what does not fit is reported, and goes into nodes of
errors.
-/

namespace StructuredText

structure Descent where
  cursor : Cursor
  /-- What was written in the node that is being parsed. -/
  written : Outline
  /-- What was found wrong so far, the last one first. -/
  errors : List Diagnostic

namespace Descent

def start (tokens : List Token) (size : Nat) : Descent :=
  ⟨.start tokens size, .nil, []⟩

/-! ### The current token -/

def kind (d : Descent) : TokenKind :=
  d.cursor.kind

def isAt (d : Descent) (kind : TokenKind) : Bool :=
  d.kind = kind

def isAtAny (d : Descent) (kinds : List TokenKind) : Bool :=
  kinds.contains d.kind

def atEnd (d : Descent) : Bool :=
  d.isAt .eof

/-- Whether a faulty construct is given up here. -/
def atSyncPoint (d : Descent) : Bool :=
  d.kind.endsStatement

/-- Whether a list of statements or declarations stops here. -/
def atListEnd (d : Descent) : Bool :=
  d.atSyncPoint && !d.isAt .semicolon

def atCaseLabel (d : Descent) : Bool :=
  d.isAtAny [.intLiteral, .minus, .ident] && d.cursor.hasLabelAhead

/-! ### Nodes -/

/-- Writes the current token, unless the text has ended. -/
def bump (d : Descent) : Descent :=
  if d.atEnd then d
  else { d with cursor := d.cursor.bump, written := d.written ++ .leaf d.kind .nil }

/-- Lets a step write by itself, and puts what it wrote after what was there. -/
def inFrame (step : Descent → Descent) (d : Descent) : Descent :=
  let inner := step { d with written := .nil }
  { inner with written := d.written ++ inner.written }

/-- Makes one node of all that was written. -/
def enclose (kind : NodeKind) (d : Descent) : Descent :=
  { d with written := .node kind d.written .nil }

/-- Makes a node of what a step writes. -/
def node (kind : NodeKind) (body : Descent → Descent) (d : Descent) : Descent :=
  d.inFrame fun d => (body d).enclose kind

/-- The same, where the step also gives a result. -/
def nodeWith {α : Type} (kind : NodeKind) (body : Descent → Descent × α) (d : Descent) : Descent × α :=
  let inner := body { d with written := .nil }
  ({ inner.1 with written := d.written ++ .node kind inner.1.written .nil }, inner.2)

/-! ### Loops -/

/-- Takes a step as long as a test holds, but at most a number of times. -/
def iterate {α : Type} (test : α → Bool) (step : α → α) : Nat → α → α
  | 0, a => a
  | n + 1, a => if test a then iterate test step n (step a) else a

/-- Takes a step as long as a test holds. The steps go through a token at least, so there is one turn for
each that is left at most. -/
def repeatWhile (test : Descent → Bool) (step : Descent → Descent) (d : Descent) : Descent :=
  iterate test step d.cursor.left d

/-! ### Reports -/

/-- Reports a problem at the current token. An error token has a report already, and a report that repeats
the one before is dropped. -/
def report (problem : Problem) (d : Descent) : Descent :=
  if d.isAt .error then d
  else
    let error := Diagnostic.ofProblem problem d.cursor.span
    let repeated := d.errors.head?.any fun last =>
      last.span = error.span && last.message = error.message
    if repeated then d else { d with errors := error :: d.errors }

def reportAt (problem : Problem) (span : Span) (d : Descent) : Descent :=
  { d with errors := .ofProblem problem span :: d.errors }

/-! ### Single tokens -/

/-- Goes through the current token if it has a kind. -/
def accept (kind : TokenKind) (d : Descent) : Descent :=
  if d.isAt kind then d.bump else d

/-- Goes through the current token if it has a kind, and otherwise reports that it is missing. -/
def expect (kind : TokenKind) (d : Descent) : Descent :=
  if d.isAt kind then d.bump else d.report (.missing kind)

/-- A node of the current token. -/
def single (kind : NodeKind) (d : Descent) : Descent :=
  d.node kind bump

/-! ### Pragmas -/

def pragmas (d : Descent) : Descent :=
  d.repeatWhile (·.isAt .pragma) (single .pragmaItem)

/-- The pragmas within a construct. Those before a next statement or declaration are left to the list around
it. -/
def inlinePragmas (d : Descent) : Descent :=
  if d.isAt .pragma then
    let next := d.cursor.kindAfterPragmas
    if next = .eof || next.startsStatement || next.opensDeclaration then d else d.pragmas
  else d

/-! ### Recovery -/

/-- Goes through what is nested too deeply, with the brackets and the keyword pairs in it. The second number
counts those that are open, the first one the tokens that are left. -/
def skipNested (stops : List TokenKind) : (turns depth : Nat) → Descent → Descent
  | 0, _, d => d
  | turns + 1, depth, d =>
    if d.atEnd || d.kind.opensDeclaration || d.kind.closesDeclaration then d
    else if d.isAtAny [.lparen, .lbracket, .kwIf, .kwCase] then
      skipNested stops turns (depth + 1) d.bump
    else if d.isAtAny [.rparen, .rbracket, .kwEndIf, .kwEndCase] then
      if depth = 0 then d else skipNested stops turns (depth - 1) d.bump
    else if depth = 0 && (d.atSyncPoint || d.isAtAny stops) then d
    else skipNested stops turns depth d.bump

/-- Reports the construct here as nested too deeply, and makes an error of all of it. -/
def skipTooDeep (stops : List TokenKind) (d : Descent) : Descent :=
  (d.report .nestingTooDeep).node .error fun d => d.skipNested stops d.cursor.left 0

/-- Makes an error of all up to a place to go on at. -/
def recoverStatement (d : Descent) : Descent :=
  if d.atEnd || d.atSyncPoint || d.kind.startsStatement then d
  else d.node .error (repeatWhile (fun d => !d.atEnd && !d.atSyncPoint) bump)

/-- Whether a `;` that is missing here can be taken as given. -/
def atInsertionPoint (d : Descent) : Bool :=
  d.atEnd || d.atSyncPoint || d.kind.startsStatement || d.isAt .pragma || d.atCaseLabel

/-- The `;` of a statement. It is not reported as missing where the last report is about the same place. -/
def terminator (d : Descent) : Descent :=
  let d := d.inlinePragmas
  if d.isAt .semicolon then d.bump
  else
    let reportedHere := d.errors.head?.any fun last => last.span.start = d.cursor.span.start
    let d := if reportedHere then d else d.report (.missing .semicolon)
    if d.atInsertionPoint then d else d.recoverStatement.accept .semicolon

end Descent

end StructuredText
