import StructuredText.Grammar.Expressions

/-!
Statements and blocks of statements. The `;` that ends a statement belongs to the block around it.
-/

namespace StructuredText.Grammar

open Rule

/-! ### Blocks -/

/-- The `;` after a statement. Where it is missing and cannot be taken as given, all up to the next
place to go on is put into an error node. -/
def terminator : Rule :=
  .seq inlinePragmas <| choose (fun a => a.kind = .semicolon) advance <|
    .seq (.reportUnlessBlamed (.missing .semicolon)) <|
      choose Ahead.atInsertionPoint .skip <| all [
        node .error (.consume (Ahead.countWhile fun k => !k.endsStatement)),
        accept .semicolon]

/-- What starts no statement, up to something that may. -/
def strayTokens : Rule :=
  .seq (.report .statement) <| node .error <| .consume <|
    Ahead.firstAndUntil fun k => k.endsStatement || k.startsStatement || k = .pragma

/-- An entry of a block: a statement with its terminator, a lone `;` or pragmas. -/
def blockItem : Rule :=
  byKind fun kind =>
    match kind with
    | .semicolon => single .noop
    | .pragma => pragmas
    | .error => single .error
    | _ => if kind.startsStatement then .seq (.enter .statement) terminator else strayTokens

def blockItems (stop : BlockEnd) : Rule :=
  .repeatWhile (fun a => !a.atBlockEnd stop) blockItem

def block (stop : BlockEnd) : Rule :=
  node .block (blockItems stop)

/-! ### Assignments and invocations -/

def assignmentOrInvocation : Rule :=
  .frame <| all [
    nameReference,
    .mark,
    inlinePragmas,
    byKind fun
      | .assign => all [advance, expression 0, .enclose .assignment]
      | .lparen => .seq argumentList (.enclose .fbInvocation)
      | _ => .seq (.report .assignmentOrCall) (.enclose .error)]

/-! ### `IF` -/

def ifBranchEnd : BlockEnd :=
  ⟨[.kwElsif, .kwElse, .kwEndIf], false⟩

/-- A keyword, a condition, `THEN` and what is done under it. -/
def guarded : Rule :=
  all [advance, expression 0, expect .kwThen, block ifBranchEnd]

/-- `ELSE` and its block, which a keyword closes. -/
def elseClause (closer : TokenKind) : Rule :=
  whenAt .kwElse (node .elseClause (.seq advance (block ⟨[closer], false⟩)))

def ifStatement : Rule :=
  node .ifStatement (all [
    guarded,
    .repeatWhile (fun a => a.kind = .kwElsif) (node .elsifClause guarded),
    elseClause .kwEndIf,
    expect .kwEndIf])

/-! ### `CASE` -/

def caseItemEnd : BlockEnd :=
  ⟨[.kwElse, .kwEndCase], true⟩

/-- An error node where a case label has no value. -/
def missingLabel : Rule :=
  .seq (.report .caseLabel) <| node .error <|
    choose (fun a => a.atEnd || a.kind.endsStatement ||
      [TokenKind.colon, .comma, .dotDot].contains a.kind) .skip advance

/-- An integer, possibly negative, or a name. -/
def labelValue : Rule :=
  .look fun a =>
    match a.kind, a.kindAt 1 with
    | .intLiteral, _ => single .integerLiteral
    | .minus, .intLiteral => node .unaryExpression (.seq advance (single .integerLiteral))
    | .ident, _ => nameReference
    | _, _ => missingLabel

/-- A value or a range of values. -/
def caseLabel : Rule :=
  node .caseLabel (all [
    labelValue,
    inlinePragmas,
    whenAt .dotDot (all [advance, pragmas, labelValue])])

def caseItem : Rule :=
  node .caseItem (all [
    caseLabel,
    inlinePragmas,
    .repeatWhile (fun a => a.kind = .comma) (all [advance, pragmas, caseLabel, inlinePragmas]),
    expect .colon,
    block caseItemEnd])

/-- An entry of a `CASE`: pragmas, an item, or what is no item up to the next one. -/
def caseEntry : Rule :=
  .look fun a =>
    if a.kind = .pragma then pragmas
    else if a.atCaseLabel then caseItem
    else .seq (.report .caseLabel) (node .error (.consume Ahead.beforeCaseLabel))

def caseStatement : Rule :=
  node .caseStatement (all [
    advance,
    expression 0,
    expect .kwOf,
    .repeatWhile (fun a => !a.atEnd && !a.kind.endsList) caseEntry,
    elseClause .kwEndCase,
    expect .kwEndCase])

/-! ### `RETURN` -/

def returnStatement : Rule :=
  node .returnStatement
    (.seq advance (choose (fun a => a.kind.startsExpression) (expression 0) .skip))

/-- What stands for `Entry.statement`. -/
def statement : Rule :=
  byKind fun
    | .kwIf => ifStatement
    | .kwCase => caseStatement
    | .kwReturn => returnStatement
    | _ => assignmentOrInvocation

end StructuredText.Grammar
