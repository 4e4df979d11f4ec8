import StructuredText.Grammar.Symbol

/-!
The questions that the grammar asks about the symbols ahead, mostly to find its way after a fault.
-/

namespace StructuredText

namespace TokenKind

/-- The symbols at which a faulty statement or declaration is given up: its terminator, and every
keyword that opens or closes something around it. -/
def endsStatement (k : TokenKind) : Bool :=
  k.opensDeclaration || k.closesDeclaration || k.opensVariables ||
    match k with
    | .semicolon | .kwEndIf | .kwEndCase | .kwElsif | .kwElse | .kwEndVar | .kwEndStruct => true
    | _ => false

/-- The same without the terminator: the symbols that no list of statements or declarations goes
past. -/
def endsList (k : TokenKind) : Bool :=
  k.endsStatement && k ≠ .semicolon

/-- The symbols that a missing operand leaves to the construct around it. -/
def endsOperand (k : TokenKind) : Bool :=
  k.endsStatement ||
    match k with
    | .rparen | .rbracket | .comma | .colon | .dotDot | .kwThen | .kwOf => true
    | _ => false

/-- The symbols before which a statement cannot have begun to be a case label. -/
def endsLabelSearch : TokenKind → Bool
  | .semicolon | .assign | .kwThen | .kwOf | .kwElse | .kwElsif | .kwEndIf | .kwEndCase
  | .kwEndFunctionBlock | .kwEndFunction | .kwEndProgram => true
  | _ => false

end TokenKind

/-- What ends a block of statements. -/
structure BlockEnd where
  /-- The keywords that close the block. A block without any is a whole text, and goes past the
  closing keywords of other constructs. -/
  closers : List TokenKind
  /-- Whether a case label ends the block too. -/
  atLabels : Bool := false

namespace Ahead

def atEnd (a : Ahead) : Bool :=
  a.kind = .eof

/-- Whether a `:` follows outside of all brackets before the statement ends. The numbers count
the open parentheses and the open square brackets. -/
def colonFollows : (parens brackets : Nat) → Ahead → Bool
  | _, _, [] => false
  | parens, brackets, s :: a =>
    match s.kind with
    | .lparen => colonFollows (parens + 1) brackets a
    | .rparen => colonFollows (parens - 1) brackets a
    | .lbracket => colonFollows parens (brackets + 1) a
    | .rbracket => colonFollows parens (brackets - 1) a
    | kind =>
      if parens = 0 && brackets = 0 && kind = .colon then true
      else if parens = 0 && brackets = 0 && kind.endsLabelSearch then false
      else colonFollows parens brackets a

/-- Whether a label of a case item starts here. -/
def atCaseLabel (a : Ahead) : Bool :=
  match a.kind with
  | .intLiteral | .minus | .ident => colonFollows 0 0 a
  | _ => false

/-- Whether the pragmas ahead belong to what was begun and not to a next statement or
declaration. -/
def pragmasInline (a : Ahead) : Bool :=
  a.kind = .pragma &&
    let next := a.kindAfterPragmas
    !(next = .eof || next.startsStatement || next.opensDeclaration)

/-- Whether a `;` that is missing here can be taken as given. -/
def atInsertionPoint (a : Ahead) : Bool :=
  a.atEnd || a.kind.endsStatement || a.kind.startsStatement || a.kind = .pragma || a.atCaseLabel

def atBlockEnd (stop : BlockEnd) (a : Ahead) : Bool :=
  a.atEnd || stop.closers.contains a.kind || a.kind.opensDeclaration ||
    (stop.atLabels && a.atCaseLabel) ||
    (!stop.closers.isEmpty && a.kind.endsList)

/-! ### How much is skipped -/

/-- All up to the next case label or the end of the case list. -/
def beforeCaseLabel : Ahead → Nat
  | [] => 0
  | s :: a => if s.kind.endsList || atCaseLabel (s :: a) then 0 else beforeCaseLabel a + 1

/-- A broken declaration: through its `;`, or up to a name that may begin the next one. -/
def brokenDeclaration : Ahead → Nat
  | [] => 0
  | s :: a =>
    if s.kind.endsList then 0
    else if s.kind = .semicolon then 1
    else if Ahead.kind a = .ident then 1
    else brokenDeclaration a + 1

/-- The first symbol and those after it up to one of a class. -/
def firstAndUntil (p : TokenKind → Bool) : Ahead → Nat
  | [] => 0
  | _ :: a => countWhile (fun k => !p k) a + 1

/-- What is nested too deeply: all up to the end of the construct, at which also the kinds of a
list stand. Brackets and the keyword pairs of `IF` and `CASE` are passed as a whole; the number
counts those that are open. -/
def tooDeep (stops : List TokenKind) : (depth : Nat) → Ahead → Nat
  | _, [] => 0
  | depth, s :: a =>
    if s.kind.opensDeclaration || s.kind.closesDeclaration then 0
    else
      match s.kind with
      | .lparen | .lbracket | .kwIf | .kwCase => tooDeep stops (depth + 1) a + 1
      | .rparen | .rbracket | .kwEndIf | .kwEndCase =>
        if depth = 0 then 0 else tooDeep stops (depth - 1) a + 1
      | kind =>
        if depth = 0 && (kind.endsStatement || stops.contains kind) then 0
        else tooDeep stops depth a + 1

end Ahead

end StructuredText
