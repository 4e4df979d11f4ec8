import StructuredText.Grammar.Symbol
import StructuredText.Grammar.Problem
import StructuredText.Tree.Weave

/-!
A small language of parsing rules. A rule reads symbols, writes an outline, and reports problems; it
never fails, so a text with faults gets a tree too. Rules refer to each other only through
`Entry`, and each such reference costs one level of nesting, of which there are `nestingLimit`.
Everything the parser does is done by the few constructors of `Rule`, and a fact about parsing is
proved by looking at each of them once.
-/

namespace StructuredText

/-- The places where the grammar is recursive. -/
inductive Entry where
  | statement
  /-- An expression of operators that bind at least as tightly as a level. -/
  | expression (least : Nat)
  | typeName
  deriving DecidableEq, Repr

inductive Rule where
  | skip
  | seq (first second : Rule)
  /-- Chooses a rule by what is ahead. -/
  | look (choice : Ahead → Rule)
  /-- Writes as many of the symbols ahead as counted, all of them if they are fewer. -/
  | consume (count : Ahead → Nat)
  | repeatWhile (test : Ahead → Bool) (body : Rule)
  /-- Follows a rule for whose `enclose` nothing counts as written before. -/
  | frame (body : Rule)
  /-- Opens the node that the next `enclose` makes: around what comes, or around what was already
  written in the frame and what comes. -/
  | mark
  /-- Makes one node of all that was written in the current frame. -/
  | enclose (kind : NodeKind)
  /-- Reports a problem at the current symbol. -/
  | report (problem : Problem)
  /-- The same, unless the last report was about the current symbol too. -/
  | reportUnlessBlamed (problem : Problem)
  /-- Follows a rule, and reports a problem with all it consumed if what it wrote is not in
  order. -/
  | require (inOrder : Outline → Bool) (problem : Problem) (body : Rule)
  /-- Goes one level deeper. -/
  | enter (entry : Entry)

/-- What a rule works on. -/
structure ParserState where
  ahead : Ahead
  /-- How many symbols were consumed. -/
  position : Nat
  /-- What was written in the current frame. -/
  written : Outline
  /-- The problems found so far, the last one first. -/
  faults : List Fault

namespace ParserState

def start (symbols : Ahead) : ParserState :=
  ⟨symbols, 0, .nil, []⟩

def consume (s : ParserState) (n : Nat) : ParserState :=
  let taken := s.ahead.take n
  { s with
    ahead := s.ahead.drop n
    position := s.position + taken.length
    written := s.written ++ .ofLeaves (taken.map Symbol.kind) }

/-- Adds a problem at the current symbol. Nothing is said where the symbol is an error token, which
has a report of its own, and nothing is said twice in a row. -/
def report (s : ParserState) (problem : Problem) : ParserState :=
  let fault := ⟨problem, s.position, s.position⟩
  if s.ahead.kind = .error || s.faults.head? = some fault then s
  else { s with faults := fault :: s.faults }

/-- Whether the last report was about the current symbol. -/
def isBlamed (s : ParserState) : Bool :=
  s.faults.head?.any fun fault => fault.first = s.position

/-- Lets a step write into an empty frame, and puts what it wrote after what was there. -/
def inFrame (step : ParserState → ParserState) (s : ParserState) : ParserState :=
  let inner := step { s with written := .nil }
  { inner with written := s.written ++ inner.written }

/-- Takes a step as long as a test holds of what is ahead, but at most a number of times. -/
def iterate (test : Ahead → Bool) (step : ParserState → ParserState) :
    Nat → ParserState → ParserState
  | 0, s => s
  | n + 1, s => if test s.ahead then iterate test step n (step s) else s

end ParserState

namespace Rule

open ParserState

/-- Follows a rule. Every turn of a repetition consumes a symbol, so there are at most as many turns
as symbols ahead. -/
def run (deeper : Entry → ParserState → ParserState) : Rule → ParserState → ParserState
  | .skip, s => s
  | .seq first second, s => second.run deeper (first.run deeper s)
  | .look choice, s => (choice s.ahead).run deeper s
  | .consume count, s => s.consume (count s.ahead)
  | .repeatWhile test body, s => iterate test (body.run deeper) s.ahead.length s
  | .frame body, s => inFrame (body.run deeper) s
  | .mark, s => s
  | .enclose kind, s => { s with written := .node kind s.written .nil }
  | .report problem, s => s.report problem
  | .reportUnlessBlamed problem, s => if s.isBlamed then s else s.report problem
  | .require inOrder problem body, s =>
    let inner := body.run deeper { s with written := .nil }
    let faults :=
      if inOrder inner.written then inner.faults
      else ⟨problem, s.position, inner.position - 1⟩ :: inner.faults
    { inner with written := s.written ++ inner.written, faults }
  | .enter entry, s => deeper entry s

/-! ### Rules made of these -/

def all : List Rule → Rule
  | [] => .skip
  | [r] => r
  | r :: rs => .seq r (all rs)

def node (kind : NodeKind) (body : Rule) : Rule :=
  .frame (.seq .mark (.seq body (.enclose kind)))

def byKind (choice : TokenKind → Rule) : Rule :=
  .look fun a => choice a.kind

def choose (test : Ahead → Bool) (yes no : Rule) : Rule :=
  .look fun a => if test a then yes else no

/-- Follows a rule only where the current symbol has a kind. -/
def whenAt (kind : TokenKind) (yes : Rule) : Rule :=
  choose (fun a => a.kind = kind) yes .skip

/-- Writes the current symbol. -/
def advance : Rule :=
  .consume fun _ => 1

/-- Writes the current symbol if it has a kind. -/
def accept (kind : TokenKind) : Rule :=
  whenAt kind advance

/-- Writes the current symbol if it has a kind, and otherwise reports that it is missing. -/
def expect (kind : TokenKind) : Rule :=
  choose (fun a => a.kind = kind) advance (.report (.missing kind))

/-- A node of one symbol. -/
def single (kind : NodeKind) : Rule :=
  node kind advance

end Rule

end StructuredText
