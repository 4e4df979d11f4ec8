import StructuredText.Grammar.Rule
import StructuredText.Grammar.Lookahead

/-!
Names, calls and expressions. Operators are read by precedence climbing: an expression of a level
is an operand and then operators of at least that level, each with an operand of its own.
-/

namespace StructuredText.Grammar

open Rule

def pragmas : Rule :=
  .repeatWhile (fun a => a.kind = .pragma) (single .pragmaItem)

/-- The pragmas within a construct; those before a next statement are left to it. -/
def inlinePragmas : Rule :=
  choose Ahead.pragmasInline pragmas .skip

def identifier : Rule :=
  single .identifier

def expression (least : Nat) : Rule :=
  .seq pragmas (.enter (.expression least))

/-- The parts of a dotted name after its first one. -/
def members : Rule :=
  all [
    .repeatWhile (fun a => a.kind = .dot && a.kindAt 1 = .ident) (.seq advance identifier),
    whenAt .dot (.seq advance (.report .memberName))]

/-- A name, dotted or not. -/
def nameReference : Rule :=
  .frame (all [identifier, whenAt .dot (all [.mark, members, .enclose .qualifiedIdentifier])])

/-! ### Arguments -/

def outputTarget : Rule :=
  choose (fun a => a.kind = .ident) nameReference (.report .outputVariable)

/-- One argument: `name := value`, `name => target`, `NOT name => target` or only a value. -/
def argument : Rule :=
  node .paramAssignment <| .look fun a =>
    match a.kind, a.kindAt 1, a.kindAt 2 with
    | .ident, .assign, _ => all [identifier, advance, expression 0]
    | .ident, .arrow, _ => all [identifier, advance, outputTarget]
    | .kwNot, .ident, .arrow => all [advance, identifier, advance, outputTarget]
    | _, _, _ => expression 0

def arguments : Rule :=
  all [
    argument,
    inlinePragmas,
    .repeatWhile (fun a => a.kind = .comma) (all [advance, pragmas, argument, inlinePragmas])]

def argumentList : Rule :=
  node .argumentList (all [
    advance,
    pragmas,
    choose (fun a => a.kind = .rparen) .skip arguments,
    expect .rparen])

/-- Whether a leaf of a kind is in the row itself, not below one of its nodes. -/
def hasLeaf (kind : TokenKind) : Outline → Bool
  | .nil => false
  | .leaf k rest => k = kind || hasLeaf kind rest
  | .node _ _ rest => hasLeaf kind rest

/-- For each argument of a list, whether it is only a value. -/
def positions : Outline → List Bool
  | .nil => []
  | .leaf _ rest => positions rest
  | .node kind children rest =>
    if kind = .paramAssignment then
      (!hasLeaf .assign children && !hasLeaf .arrow children) :: positions rest
    else positions rest

/-- Whether what was written is an argument list of a single value. -/
def isOneValue : Outline → Bool
  | .node .argumentList children .nil => positions children = [true]
  | _ => false

/-! ### Operands -/

/-- A name or, before a parenthesis, a call. A conversion takes one value. -/
def nameOrCall : Rule :=
  choose (fun a => a.head?.any Symbol.conversion && a.kindAt 1 = .lparen)
    (.frame (all [
      identifier,
      .mark,
      .require isOneValue .conversionArity argumentList,
      .enclose .typeConversion]))
    (.frame (all [
      nameReference,
      whenAt .lparen (all [.mark, argumentList, .enclose .functionCall])]))

def parenthesized : Rule :=
  node .parenthesizedExpression (all [advance, expression 0, expect .rparen])

/-- An error node for an operand that is not there. It takes the current symbol, unless that means
something to the construct around it. -/
def missingOperand : Rule :=
  node .error (.seq (.report .expression)
    (choose (fun a => a.atEnd || a.kind.endsOperand) .skip advance))

def operand : Rule :=
  byKind fun
    | .intLiteral => single .integerLiteral
    | .realLiteral => single .floatLiteral
    | .timeLiteral => single .timeLiteral
    | .stringLiteral => single .stringLiteral
    | .kwTrue | .kwFalse => single .booleanLiteral
    | .ident => nameOrCall
    | .lparen => parenthesized
    | .error => single .error
    | _ => missingOperand

/-- An operand, or a sign and an operand. -/
def signedOperand : Rule :=
  byKind fun kind =>
    match kind.signLevel? with
    | some level => node .unaryExpression (.seq advance (expression level))
    | none => operand

/-! ### Operators -/

/-- Whether an operator of at least a level is next. -/
def atOperator (least : Nat) (a : Ahead) : Bool :=
  a.kind.binding?.any fun b => least ≤ b.level

/-- The least level that the operand after an operator may have. -/
def rightLevel (kind : TokenKind) : Nat :=
  kind.binding?.elim 0 fun b => if b.rightAssociative then b.level else b.level + 1

/-- An operator and its second operand, which take all before them as the first operand. -/
def operatorTail : Rule :=
  byKind fun kind =>
    all [.mark, advance, expression (rightLevel kind), .enclose (.ofOperator kind), inlinePragmas]

/-- What stands for `Entry.expression least`. -/
def operation (least : Nat) : Rule :=
  .frame (all [signedOperand, inlinePragmas, .repeatWhile (atOperator least) operatorTail])

end StructuredText.Grammar
