/-!
The kinds of token of Structured Text, and the classes of kinds that the grammar asks about.
-/

namespace StructuredText

/-- What a piece of source text is. The order is that of the codes: trivia, pragmas, punctuation,
operators, keywords, literals, names, and last the two kinds that stand for no word of the
language. `eof` is never the kind of a token of a text; it names the end of input in messages. -/
inductive TokenKind where
  | whitespace
  | lineComment
  | blockComment
  | pragma
  | semicolon
  | colon
  | comma
  | dot
  | dotDot
  | lparen
  | rparen
  | lbracket
  | rbracket
  | assign
  | arrow
  | eq
  | neq
  | lt
  | ltEq
  | gt
  | gtEq
  | plus
  | minus
  | star
  | slash
  | power
  | kwProgram
  | kwEndProgram
  | kwFunction
  | kwEndFunction
  | kwFunctionBlock
  | kwEndFunctionBlock
  | kwVar
  | kwVarInput
  | kwVarOutput
  | kwVarInOut
  | kwVarTemp
  | kwVarStatic
  | kwVarGlobal
  | kwVarExternal
  | kwEndVar
  | kwConstant
  | kwType
  | kwEndType
  | kwStruct
  | kwEndStruct
  | kwArray
  | kwOf
  | kwIf
  | kwThen
  | kwElsif
  | kwElse
  | kwEndIf
  | kwCase
  | kwEndCase
  | kwReturn
  | kwAnd
  | kwOr
  | kwXor
  | kwNot
  | kwMod
  | kwTrue
  | kwFalse
  | intLiteral
  | realLiteral
  | timeLiteral
  | stringLiteral
  | ident
  | error
  | eof
  deriving DecidableEq, Repr, Inhabited

namespace TokenKind

/-- Every kind, in the order of the codes. -/
def all : List TokenKind :=
  [.whitespace, .lineComment, .blockComment, .pragma, .semicolon, .colon, .comma, .dot, .dotDot,
    .lparen, .rparen, .lbracket, .rbracket, .assign, .arrow, .eq, .neq, .lt, .ltEq, .gt, .gtEq,
    .plus, .minus, .star, .slash, .power, .kwProgram, .kwEndProgram, .kwFunction, .kwEndFunction,
    .kwFunctionBlock, .kwEndFunctionBlock, .kwVar, .kwVarInput, .kwVarOutput, .kwVarInOut,
    .kwVarTemp, .kwVarStatic, .kwVarGlobal, .kwVarExternal, .kwEndVar, .kwConstant, .kwType,
    .kwEndType, .kwStruct, .kwEndStruct, .kwArray, .kwOf, .kwIf, .kwThen, .kwElsif, .kwElse,
    .kwEndIf, .kwCase, .kwEndCase, .kwReturn, .kwAnd, .kwOr, .kwXor, .kwNot, .kwMod, .kwTrue,
    .kwFalse, .intLiteral, .realLiteral, .timeLiteral, .stringLiteral, .ident, .error, .eof]

/-- The position of a kind in the list of all kinds. -/
def code (k : TokenKind) : Nat :=
  k.ctorIdx

theorem all_getElem?_code (k : TokenKind) : all[k.code]? = some k := by
  cases k <;> rfl

/-- The name that listings give a kind. -/
def name : TokenKind → String
  | .whitespace => "Whitespace"
  | .lineComment => "LineComment"
  | .blockComment => "BlockComment"
  | .pragma => "Pragma"
  | .semicolon => "Semicolon"
  | .colon => "Colon"
  | .comma => "Comma"
  | .dot => "Dot"
  | .dotDot => "DotDot"
  | .lparen => "LParen"
  | .rparen => "RParen"
  | .lbracket => "LBracket"
  | .rbracket => "RBracket"
  | .assign => "Assign"
  | .arrow => "Arrow"
  | .eq => "Eq"
  | .neq => "Neq"
  | .lt => "Lt"
  | .ltEq => "LtEq"
  | .gt => "Gt"
  | .gtEq => "GtEq"
  | .plus => "Plus"
  | .minus => "Minus"
  | .star => "Star"
  | .slash => "Slash"
  | .power => "Power"
  | .kwProgram => "KwProgram"
  | .kwEndProgram => "KwEndProgram"
  | .kwFunction => "KwFunction"
  | .kwEndFunction => "KwEndFunction"
  | .kwFunctionBlock => "KwFunctionBlock"
  | .kwEndFunctionBlock => "KwEndFunctionBlock"
  | .kwVar => "KwVar"
  | .kwVarInput => "KwVarInput"
  | .kwVarOutput => "KwVarOutput"
  | .kwVarInOut => "KwVarInOut"
  | .kwVarTemp => "KwVarTemp"
  | .kwVarStatic => "KwVarStatic"
  | .kwVarGlobal => "KwVarGlobal"
  | .kwVarExternal => "KwVarExternal"
  | .kwEndVar => "KwEndVar"
  | .kwConstant => "KwConstant"
  | .kwType => "KwType"
  | .kwEndType => "KwEndType"
  | .kwStruct => "KwStruct"
  | .kwEndStruct => "KwEndStruct"
  | .kwArray => "KwArray"
  | .kwOf => "KwOf"
  | .kwIf => "KwIf"
  | .kwThen => "KwThen"
  | .kwElsif => "KwElsif"
  | .kwElse => "KwElse"
  | .kwEndIf => "KwEndIf"
  | .kwCase => "KwCase"
  | .kwEndCase => "KwEndCase"
  | .kwReturn => "KwReturn"
  | .kwAnd => "KwAnd"
  | .kwOr => "KwOr"
  | .kwXor => "KwXor"
  | .kwNot => "KwNot"
  | .kwMod => "KwMod"
  | .kwTrue => "KwTrue"
  | .kwFalse => "KwFalse"
  | .intLiteral => "IntLiteral"
  | .realLiteral => "RealLiteral"
  | .timeLiteral => "TimeLiteral"
  | .stringLiteral => "StringLiteral"
  | .ident => "Ident"
  | .error => "Error"
  | .eof => "Eof"

/-- Comments are kept with the text and never change how it is parsed. -/
def isComment : TokenKind → Bool
  | .lineComment | .blockComment => true
  | _ => false

/-- Blank space and comments. Pragmas are not trivia: they have places of their own in a tree. -/
def isTrivia : TokenKind → Bool
  | .whitespace | .lineComment | .blockComment => true
  | _ => false

def opensDeclaration : TokenKind → Bool
  | .kwFunctionBlock | .kwFunction | .kwProgram | .kwType => true
  | _ => false

def closesDeclaration : TokenKind → Bool
  | .kwEndFunctionBlock | .kwEndFunction | .kwEndProgram | .kwEndType => true
  | _ => false

def opensVariables : TokenKind → Bool
  | .kwVar | .kwVarInput | .kwVarOutput | .kwVarInOut | .kwVarTemp | .kwVarStatic | .kwVarGlobal
  | .kwVarExternal => true
  | _ => false

def startsExpression : TokenKind → Bool
  | .ident | .intLiteral | .realLiteral | .timeLiteral | .stringLiteral | .kwTrue | .kwFalse
  | .kwNot | .lparen | .minus => true
  | _ => false

def startsStatement : TokenKind → Bool
  | .ident | .kwIf | .kwCase | .kwReturn => true
  | _ => false

def isComparison : TokenKind → Bool
  | .lt | .ltEq | .gt | .gtEq => true
  | _ => false

def isEquality : TokenKind → Bool
  | .eq | .neq => true
  | _ => false

def isBoolean : TokenKind → Bool
  | .kwAnd | .kwOr | .kwXor => true
  | _ => false

end TokenKind

/-- How tightly an operator between two operands binds, and to which side it groups. -/
structure Binding where
  level : Nat
  rightAssociative : Bool := false
  deriving DecidableEq, Repr

namespace TokenKind

/-- From `OR`, the loosest, to `**`, the tightest and the only one that groups to the right. -/
def binding? : TokenKind → Option Binding
  | .kwOr => some ⟨0, false⟩
  | .kwXor => some ⟨1, false⟩
  | .kwAnd => some ⟨2, false⟩
  | .eq | .neq => some ⟨10, false⟩
  | .lt | .ltEq | .gt | .gtEq => some ⟨11, false⟩
  | .plus | .minus => some ⟨20, false⟩
  | .star | .slash | .kwMod => some ⟨21, false⟩
  | .power => some ⟨22, true⟩
  | _ => none

/-- The level of `-` and `NOT` before an operand, above that of every infix operator. -/
def signLevel? : TokenKind → Option Nat
  | .kwNot | .minus => some 30
  | _ => none

end TokenKind

end StructuredText
