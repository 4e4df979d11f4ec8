import StructuredText.Token.Keyword

/-!
What the grammar can find wrong with a text, and the wording of each finding.
-/

namespace StructuredText

namespace TokenKind

/-- How punctuation is written. -/
def mark? : TokenKind → Option String
  | .semicolon => some ";"
  | .colon => some ":"
  | .comma => some ","
  | .dot => some "."
  | .dotDot => some ".."
  | .lparen => some "("
  | .rparen => some ")"
  | .lbracket => some "["
  | .rbracket => some "]"
  | .assign => some ":="
  | .arrow => some "=>"
  | _ => none

/-- A kind as messages quote it: keywords in capitals, punctuation between apostrophes. -/
def quoted (k : TokenKind) : String :=
  match k.spelling?, k.mark? with
  | some spelling, _ => spelling.toUpper
  | none, some mark => "'" ++ mark ++ "'"
  | none, none => k.name

end TokenKind

inductive Problem where
  /-- A token that has to stand at a place is not there. -/
  | missing (kind : TokenKind)
  | programName
  | functionName
  | functionBlockName
  | typeName
  | variableName
  | memberName
  | outputVariable
  | expression
  | statement
  | caseLabel
  | variableDeclaration
  | structField
  | assignmentOrCall
  | declaration
  | mixedDeclarations
  | conversionArity
  | nestingTooDeep
  deriving DecidableEq, Repr

namespace Problem

def message : Problem → String
  | .missing kind => "expected " ++ kind.quoted
  | .programName => "expected program name"
  | .functionName => "expected function name"
  | .functionBlockName => "expected function block name"
  | .typeName => "expected type name"
  | .variableName => "expected variable name"
  | .memberName => "expected identifier after '.'"
  | .outputVariable => "expected output variable after '=>'"
  | .expression => "expected expression"
  | .statement => "expected statement"
  | .caseLabel => "expected case label"
  | .variableDeclaration => "expected variable declaration"
  | .structField => "expected struct field"
  | .assignmentOrCall => "expected ':=' or '('"
  | .declaration => "expected FUNCTION_BLOCK, FUNCTION, PROGRAM, or TYPE"
  | .mixedDeclarations => "declarations cannot be mixed with statements"
  | .conversionArity => "type conversion takes exactly one positional argument"
  | .nestingTooDeep => "nesting too deep"

end Problem

/-- A problem and the symbols it lies at, counted from the start of the text. The number that
follows the last symbol stands for the end of the text. -/
structure Fault where
  problem : Problem
  first : Nat
  last : Nat
  deriving DecidableEq, Repr

end StructuredText
