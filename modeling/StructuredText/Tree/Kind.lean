import StructuredText.Token.Kind

/-!
The kinds of node of a tree, and the common numbering of nodes and tokens.
-/

namespace StructuredText

/-- What a node of a tree stands for, in the order of the codes. An `error` node holds what the
grammar could not place; it shares its code with error tokens. -/
inductive NodeKind where
  | sourceFile
  | functionBlockDeclaration
  | functionDeclaration
  | programDeclaration
  | typeDeclaration
  | structDefinition
  | structField
  | varSection
  | varDecl
  | arrayType
  | arrayRange
  | pragmaItem
  | block
  | noop
  | assignment
  | fbInvocation
  | ifStatement
  | elsifClause
  | elseClause
  | caseStatement
  | caseItem
  | caseLabel
  | returnStatement
  | identifier
  | qualifiedIdentifier
  | unaryExpression
  | binaryOperator
  | booleanOperator
  | comparisonOperator
  | equalityOperator
  | parenthesizedExpression
  | functionCall
  | typeConversion
  | argumentList
  | paramAssignment
  | integerLiteral
  | floatLiteral
  | timeLiteral
  | booleanLiteral
  | stringLiteral
  | error
  deriving DecidableEq, Repr, Inhabited

namespace NodeKind

/-- The kinds that have a code of their own, in the order of the codes. -/
def coded : List NodeKind :=
  [.sourceFile, .functionBlockDeclaration, .functionDeclaration, .programDeclaration,
    .typeDeclaration, .structDefinition, .structField, .varSection, .varDecl, .arrayType,
    .arrayRange, .pragmaItem, .block, .noop, .assignment, .fbInvocation, .ifStatement,
    .elsifClause, .elseClause, .caseStatement, .caseItem, .caseLabel, .returnStatement,
    .identifier, .qualifiedIdentifier, .unaryExpression, .binaryOperator, .booleanOperator,
    .comparisonOperator, .equalityOperator, .parenthesizedExpression, .functionCall,
    .typeConversion, .argumentList, .paramAssignment, .integerLiteral, .floatLiteral,
    .timeLiteral, .booleanLiteral, .stringLiteral]

/-- The codes of nodes follow those of tokens. -/
def code : NodeKind → Nat
  | .error => TokenKind.error.code
  | k => TokenKind.all.length + k.ctorIdx

/-- The name that listings give a kind. -/
def name : NodeKind → String
  | .sourceFile => "SourceFile"
  | .functionBlockDeclaration => "FunctionBlockDeclaration"
  | .functionDeclaration => "FunctionDeclaration"
  | .programDeclaration => "ProgramDeclaration"
  | .typeDeclaration => "TypeDeclaration"
  | .structDefinition => "StructDefinition"
  | .structField => "StructField"
  | .varSection => "VarSection"
  | .varDecl => "VarDecl"
  | .arrayType => "ArrayType"
  | .arrayRange => "ArrayRange"
  | .pragmaItem => "PragmaItem"
  | .block => "Block"
  | .noop => "Noop"
  | .assignment => "Assignment"
  | .fbInvocation => "FbInvocation"
  | .ifStatement => "IfStatement"
  | .elsifClause => "ElsifClause"
  | .elseClause => "ElseClause"
  | .caseStatement => "CaseStatement"
  | .caseItem => "CaseItem"
  | .caseLabel => "CaseLabel"
  | .returnStatement => "ReturnStatement"
  | .identifier => "Identifier"
  | .qualifiedIdentifier => "QualifiedIdentifier"
  | .unaryExpression => "UnaryExpression"
  | .binaryOperator => "BinaryOperator"
  | .booleanOperator => "BooleanOperator"
  | .comparisonOperator => "ComparisonOperator"
  | .equalityOperator => "EqualityOperator"
  | .parenthesizedExpression => "ParenthesizedExpression"
  | .functionCall => "FunctionCall"
  | .typeConversion => "TypeConversion"
  | .argumentList => "ArgumentList"
  | .paramAssignment => "ParamAssignment"
  | .integerLiteral => "IntegerLiteral"
  | .floatLiteral => "FloatLiteral"
  | .timeLiteral => "TimeLiteralExpr"
  | .booleanLiteral => "BooleanLiteral"
  | .stringLiteral => "StringLiteralExpr"
  | .error => "Error"

/-- The name that S-expressions give a kind. -/
def symbol : NodeKind → String
  | .sourceFile => "source_file"
  | .functionBlockDeclaration => "function_block_declaration"
  | .functionDeclaration => "function_declaration"
  | .programDeclaration => "program_declaration"
  | .typeDeclaration => "type_declaration"
  | .structDefinition => "struct_definition"
  | .structField => "struct_field"
  | .varSection => "var_section"
  | .varDecl => "var_decl"
  | .arrayType => "array_type"
  | .arrayRange => "array_range"
  | .pragmaItem => "pragma"
  | .block => "block"
  | .noop => "noop"
  | .assignment => "assignment"
  | .fbInvocation => "fb_invocation"
  | .ifStatement => "if_statement"
  | .elsifClause => "elsif_clause"
  | .elseClause => "else_clause"
  | .caseStatement => "case_statement"
  | .caseItem => "case_item"
  | .caseLabel => "case_label"
  | .returnStatement => "return"
  | .identifier => "identifier"
  | .qualifiedIdentifier => "qualified_identifier"
  | .unaryExpression => "unary_expression"
  | .binaryOperator => "binary_operator"
  | .booleanOperator => "boolean_operator"
  | .comparisonOperator => "comparison_operator"
  | .equalityOperator => "equality_operator"
  | .parenthesizedExpression => "parenthesized_expression"
  | .functionCall => "function_call"
  | .typeConversion => "type_conversion"
  | .argumentList => "argument_list"
  | .paramAssignment => "param_assignment"
  | .integerLiteral => "integer_literal"
  | .floatLiteral => "float_literal"
  | .timeLiteral => "time_literal"
  | .booleanLiteral => "boolean_literal"
  | .stringLiteral => "string_literal"
  | .error => "ERROR"

def isDeclaration : NodeKind → Bool
  | .functionBlockDeclaration | .functionDeclaration | .programDeclaration | .typeDeclaration =>
    true
  | _ => false

/-- The declarations that have variables and a body. -/
def isUnit : NodeKind → Bool
  | .functionBlockDeclaration | .functionDeclaration | .programDeclaration => true
  | _ => false

def isStatement : NodeKind → Bool
  | .assignment | .fbInvocation | .ifStatement | .caseStatement | .returnStatement => true
  | _ => false

/-- What may stand in a block: statements, lone semicolons and pragmas. -/
def isBlockItem : NodeKind → Bool
  | .noop | .pragmaItem => true
  | k => k.isStatement

def isTypeName : NodeKind → Bool
  | .identifier | .arrayType => true
  | _ => false

def isExpression : NodeKind → Bool
  | .identifier | .qualifiedIdentifier | .unaryExpression | .binaryOperator | .booleanOperator
  | .comparisonOperator | .equalityOperator | .parenthesizedExpression | .functionCall
  | .typeConversion | .integerLiteral | .floatLiteral | .timeLiteral | .booleanLiteral
  | .stringLiteral => true
  | _ => false

/-- The operators between two operands. -/
def isInfix : NodeKind → Bool
  | .binaryOperator | .booleanOperator | .comparisonOperator | .equalityOperator => true
  | _ => false

/-- The node that an operator makes of its two operands. -/
def ofOperator (operator : TokenKind) : NodeKind :=
  if operator.isBoolean then .booleanOperator
  else if operator.isEquality then .equalityOperator
  else if operator.isComparison then .comparisonOperator
  else .binaryOperator

end NodeKind

/-- The kind of an element of a tree, token or node. -/
inductive ElementKind where
  | token (kind : TokenKind)
  | node (kind : NodeKind)
  deriving DecidableEq, Repr

namespace ElementKind

/-- The kind of a code. A number that is no code stands for an error. -/
def ofCode (n : Nat) : ElementKind :=
  match TokenKind.all[n]?, NodeKind.coded[n - TokenKind.all.length]? with
  | some k, _ => .token k
  | none, some k => .node k
  | none, none => .token .error

def code : ElementKind → Nat
  | .token k => k.code
  | .node k => k.code

def name : ElementKind → String
  | .token k => k.name
  | .node k => k.name

def isTrivia : ElementKind → Bool
  | .token k => k.isTrivia
  | .node _ => false

def isComment : ElementKind → Bool
  | .token k => k.isComment
  | .node _ => false

def isToken : ElementKind → Bool
  | .token _ => true
  | .node k => k = .error

def isNode (k : ElementKind) : Bool :=
  !k.isToken

def isExpression : ElementKind → Bool
  | .token _ => false
  | .node k => k.isExpression

/-- Tokens do not stand in S-expressions, error tokens apart. -/
def symbol? : ElementKind → Option String
  | .token .error => some NodeKind.error.symbol
  | .token _ => none
  | .node k => some k.symbol

end ElementKind

end StructuredText
