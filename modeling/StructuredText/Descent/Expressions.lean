import StructuredText.Descent.Basic

/-!
Names, calls and expressions. Where the parser goes a level deeper it does so through a function that is
given to it, which counts the levels.
-/

namespace StructuredText.Descent

def identifier (d : Descent) : Descent :=
  d.single .identifier

/-- Names behind separators, as many as turns are given. A separator without a name behind it is a
problem. -/
def separatedNames (separator : TokenKind) (name : Descent → Descent) (problem : Problem) :
    (turns : Nat) → Descent → Descent
  | 0, d => d
  | turns + 1, d =>
    if d.isAt separator then
      let d := d.bump
      if d.isAt .ident then separatedNames separator name problem turns (name d) else d.report problem
    else d

/-- A name, dotted or not. -/
def nameReference (d : Descent) : Descent :=
  d.inFrame fun d =>
    let d := d.identifier
    if d.isAt .dot then
      (d.separatedNames .dot identifier .memberName d.cursor.left).enclose .qualifiedIdentifier
    else d

def outputTarget (d : Descent) : Descent :=
  if d.isAt .ident then d.nameReference else d.report .outputVariable

/-- What is known of the arguments of a list. -/
structure Arguments where
  count : Nat
  allPositional : Bool
  deriving DecidableEq, Repr

namespace Arguments

def none : Arguments :=
  ⟨0, true⟩

/-- One more argument. -/
def add (c : Arguments) (positional : Bool) : Arguments :=
  ⟨c.count + 1, c.allPositional && positional⟩

/-- Whether there is one argument, which is only a value. -/
def isOneValue (c : Arguments) : Bool :=
  c.count = 1 && c.allPositional

end Arguments

section

variable (deeper : Entry → Descent → Descent)

/-- An expression of operators that bind at least as tightly as a level. -/
def expressionFrom (least : Nat) (d : Descent) : Descent :=
  deeper (.expression least) d.pragmas

def expression (d : Descent) : Descent :=
  expressionFrom deeper 0 d

/-! ### Arguments -/

/-- What is read in the node of an argument, and whether it is only a value. -/
def argumentParts (d : Descent) : Descent × Bool :=
  match d.kind, d.cursor.kindAt 1, d.cursor.kindAt 2 with
  | .ident, .assign, _ => (expression deeper d.identifier.bump, false)
  | .ident, .arrow, _ => (d.identifier.bump.outputTarget, false)
  | .kwNot, .ident, .arrow => (d.bump.identifier.bump.outputTarget, false)
  | _, _, _ => (expression deeper d, true)

/-- An argument with the pragmas behind it, which is counted. -/
def countArgument (d : Descent) (c : Arguments) : Descent × Arguments :=
  let (d, positional) := d.nodeWith .paramAssignment (argumentParts deeper)
  (d.inlinePragmas, c.add positional)

/-- The arguments up to a `)`. -/
def arguments (d : Descent) : Descent × Arguments :=
  if d.isAt .rparen then (d, .none)
  else
    let first := countArgument deeper d .none
    iterate (fun s => s.1.isAt .comma) (fun s => countArgument deeper s.1.bump.pragmas s.2)
      first.1.cursor.left first

def argumentList (d : Descent) : Descent × Arguments :=
  d.nodeWith .argumentList fun d =>
    let (d, c) := arguments deeper d.bump.pragmas
    (d.expect .rparen, c)

/-! ### Operands -/

/-- A name or, before a parenthesis, a call. A conversion takes one value. -/
def nameOrCall (d : Descent) : Descent :=
  let conversion := ConversionName.isConversion d.cursor.chars && d.cursor.kindAt 1 = .lparen
  d.inFrame fun d =>
    let d := d.nameReference
    if d.isAt .lparen then
      let called := argumentList deeper d
      if conversion then
        let span : Span := ⟨d.cursor.span.start, called.1.cursor.previous.stop⟩
        let d := if called.2.isOneValue then called.1 else called.1.reportAt .conversionArity span
        d.enclose .typeConversion
      else called.1.enclose .functionCall
    else d

def parenthesized (d : Descent) : Descent :=
  d.node .parenthesizedExpression fun d => (expression deeper d.bump).expect .rparen

/-- An error node for an operand that is not there. It takes the current token, unless that means
something to the construct around it. -/
def missingOperand (d : Descent) : Descent :=
  d.node .error fun d =>
    let d := d.report .expression
    if d.atEnd || d.atSyncPoint || d.isAtAny [.rparen, .rbracket, .comma, .colon, .dotDot, .kwThen, .kwOf]
    then d else d.bump

def operand (d : Descent) : Descent :=
  match d.kind with
  | .intLiteral => d.single .integerLiteral
  | .realLiteral => d.single .floatLiteral
  | .timeLiteral => d.single .timeLiteral
  | .stringLiteral => d.single .stringLiteral
  | .kwTrue | .kwFalse => d.single .booleanLiteral
  | .ident => nameOrCall deeper d
  | .lparen => parenthesized deeper d
  | .error => d.single .error
  | _ => d.missingOperand

/-- An operand, or a sign and an operand. -/
def signedOperand (d : Descent) : Descent :=
  match d.kind.signLevel? with
  | some level => d.node .unaryExpression fun d => expressionFrom deeper level d.bump
  | none => operand deeper d

/-! ### Operators -/

/-- Whether an operator of at least a level is next. -/
def atOperator (least : Nat) (d : Descent) : Bool :=
  d.kind.binding?.any fun b => least ≤ b.level

/-- An operator and its second operand, which take all before them as the first operand. -/
def operatorTail (d : Descent) : Descent :=
  let right := d.kind.binding?.elim 0 fun b => if b.rightAssociative then b.level else b.level + 1
  ((expressionFrom deeper right d.bump).enclose (.ofOperator d.kind)).inlinePragmas

def operation (least : Nat) (d : Descent) : Descent :=
  d.inFrame fun d =>
    (signedOperand deeper d).inlinePragmas.repeatWhile (atOperator least) (operatorTail deeper)

end

end StructuredText.Descent
