import StructuredText.Descent.Expressions
import StructuredText.Grammar.Statements

/-!
Statements and blocks of statements. The `;` that ends a statement belongs to the block around it.
-/

namespace StructuredText.Descent

open Grammar (ifBranchEnd caseItemEnd)

section

variable (deeper : Entry → Descent → Descent)

/-! ### Blocks -/

def atBlockEnd (stop : BlockEnd) (d : Descent) : Bool :=
  d.atEnd || d.isAtAny stop.closers || d.kind.opensDeclaration || (stop.atLabels && d.atCaseLabel) ||
    (!stop.closers.isEmpty && d.atListEnd)

/-- What starts no statement, up to something that may. -/
def strayTokens (d : Descent) : Descent :=
  (d.report .statement).node .error fun d =>
    d.bump.repeatWhile
      (fun d => !d.atEnd && !d.atSyncPoint && !d.kind.startsStatement && !d.isAt .pragma) bump

/-- An entry of a block: a statement with its terminator, a lone `;` or pragmas. -/
def blockItem (d : Descent) : Descent :=
  match d.kind with
  | .semicolon => d.single .noop
  | .pragma => d.pragmas
  | .error => d.single .error
  | kind => if kind.startsStatement then (deeper .statement d).terminator else d.strayTokens

def block (stop : BlockEnd) (d : Descent) : Descent :=
  d.node .block (repeatWhile (fun d => !d.atBlockEnd stop) (blockItem deeper))

/-! ### Assignments and invocations -/

def assignmentOrInvocation (d : Descent) : Descent :=
  d.inFrame fun d =>
    let d := d.nameReference.inlinePragmas
    match d.kind with
    | .assign => (expression deeper d.bump).enclose .assignment
    | .lparen => (argumentList deeper d).1.enclose .fbInvocation
    | _ => (d.report .assignmentOrCall).enclose .error

/-! ### `IF` -/

/-- A keyword, a condition, `THEN` and what is done under it. -/
def guarded (d : Descent) : Descent :=
  block deeper ifBranchEnd ((expression deeper d.bump).expect .kwThen)

/-- `ELSE` and its block, which a keyword closes. -/
def elseClause (closer : TokenKind) (d : Descent) : Descent :=
  if d.isAt .kwElse then d.node .elseClause fun d => block deeper ⟨[closer], false⟩ d.bump else d

def ifStatement (d : Descent) : Descent :=
  d.node .ifStatement fun d =>
    let d := (guarded deeper d).repeatWhile (·.isAt .kwElsif) (node .elsifClause (guarded deeper))
    (elseClause deeper .kwEndIf d).expect .kwEndIf

/-! ### `CASE` -/

/-- An error node where a case label has no value. -/
def missingLabel (d : Descent) : Descent :=
  (d.report .caseLabel).node .error fun d =>
    if d.atEnd || d.atSyncPoint || d.isAtAny [.colon, .comma, .dotDot] then d else d.bump

/-- An integer, possibly negative, or a name. -/
def labelValue (d : Descent) : Descent :=
  match d.kind, d.cursor.kindAt 1 with
  | .intLiteral, _ => d.single .integerLiteral
  | .minus, .intLiteral => d.node .unaryExpression fun d => d.bump.single .integerLiteral
  | .ident, _ => d.nameReference
  | _, _ => d.missingLabel

/-- A value or a range of values. -/
def caseLabel (d : Descent) : Descent :=
  d.node .caseLabel fun d =>
    let d := d.labelValue.inlinePragmas
    if d.isAt .dotDot then d.bump.pragmas.labelValue else d

def caseItem (d : Descent) : Descent :=
  d.node .caseItem fun d =>
    let d := d.caseLabel.inlinePragmas.repeatWhile (·.isAt .comma) fun d =>
      d.bump.pragmas.caseLabel.inlinePragmas
    block deeper caseItemEnd (d.expect .colon)

/-- Whether nothing is left of the items of a `CASE`. -/
def atItemsEnd (d : Descent) : Bool :=
  d.isAtAny caseItemEnd.closers || d.atEnd || d.atListEnd

/-- An entry of a `CASE`: pragmas, an item, or what is no item up to the next one. -/
def caseEntry (d : Descent) : Descent :=
  if d.isAt .pragma then d.pragmas
  else if d.atCaseLabel then caseItem deeper d
  else (d.report .caseLabel).node .error (repeatWhile (fun d => !d.atItemsEnd && !d.atCaseLabel) bump)

def caseStatement (d : Descent) : Descent :=
  d.node .caseStatement fun d =>
    let d := ((expression deeper d.bump).expect .kwOf).repeatWhile
      (fun d => d.isAt .pragma || d.atCaseLabel || !d.atItemsEnd) (caseEntry deeper)
    (elseClause deeper .kwEndCase d).expect .kwEndCase

/-! ### `RETURN` -/

def returnStatement (d : Descent) : Descent :=
  d.node .returnStatement fun d =>
    let d := d.bump
    if d.kind.startsExpression then expression deeper d else d

def statement (d : Descent) : Descent :=
  match d.kind with
  | .kwIf => ifStatement deeper d
  | .kwCase => caseStatement deeper d
  | .kwReturn => returnStatement deeper d
  | .ident => assignmentOrInvocation deeper d
  | _ => (d.report .statement).recoverStatement

end

end StructuredText.Descent
