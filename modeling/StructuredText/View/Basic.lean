import StructuredText.Tree.Node

/-!
Nodes of known kinds. A `View` is a node together with the fact that its kind is one of a class, and
the parts of a node are found by class among its children. A part that a faulty text does not have
is `none`.
-/

namespace StructuredText

/-- A node whose kind is in a class. -/
structure View (p : NodeKind → Bool) where
  node : Node
  kind_mem : p node.kind

namespace View

/-- The node, if its kind is in the class. -/
def of? {p : NodeKind → Bool} (n : Node) : Option (View p) :=
  if h : p n.kind then some ⟨n, h⟩ else none

end View

/-- A node of one kind. -/
abbrev ViewOf (kind : NodeKind) := View fun k => k = kind

namespace Node

variable {p : NodeKind → Bool}

/-- The children that are nodes of a class. -/
def parts (n : Node) : List (View p) :=
  (n.elements.filterMap Element.node?).filterMap View.of?

/-- The first child of a class. -/
def part? (n : Node) : Option (View p) :=
  n.parts.head?

/-- A child of a class, by its number among them. -/
def partAt? (n : Node) (i : Nat) : Option (View p) :=
  n.parts[i]?

/-- The first child of a class after a token of a kind. -/
def partAfter? (n : Node) (mark : TokenKind) : Option (View p) :=
  (((n.elements.dropWhile fun e => !e.isToken mark).filterMap Element.node?).filterMap
    View.of?).head?

/-- The children of a class before a token of a kind. -/
def partsBefore (n : Node) (mark : TokenKind) : List (View p) :=
  ((n.elements.takeWhile fun e => !e.isToken mark).filterMap Element.node?).filterMap View.of?

/-- The children that are tokens. -/
def tokens (n : Node) : List Token :=
  n.elements.filterMap Element.token?

/-- The first token of a kind among the children. -/
def tokenOf? (n : Node) (kind : TokenKind) : Option Token :=
  n.tokens.find? fun t => t.kind = kind

/-- The first token among the children that is no trivia. -/
def firstToken? (n : Node) : Option Token :=
  n.tokens.find? fun t => !t.isTrivia

end Node

/-! ### The classes -/

abbrev SourceFile := ViewOf .sourceFile
abbrev FunctionBlockDeclaration := ViewOf .functionBlockDeclaration
abbrev FunctionDeclaration := ViewOf .functionDeclaration
abbrev ProgramDeclaration := ViewOf .programDeclaration
abbrev TypeDeclaration := ViewOf .typeDeclaration
abbrev StructDefinition := ViewOf .structDefinition
abbrev StructField := ViewOf .structField
abbrev VarSection := ViewOf .varSection
abbrev VarDecl := ViewOf .varDecl
abbrev ArrayType := ViewOf .arrayType
abbrev ArrayRange := ViewOf .arrayRange
abbrev PragmaItem := ViewOf .pragmaItem
abbrev Block := ViewOf .block
abbrev Noop := ViewOf .noop
abbrev Assignment := ViewOf .assignment
abbrev FbInvocation := ViewOf .fbInvocation
abbrev IfStatement := ViewOf .ifStatement
abbrev ElsifClause := ViewOf .elsifClause
abbrev ElseClause := ViewOf .elseClause
abbrev CaseStatement := ViewOf .caseStatement
abbrev CaseItem := ViewOf .caseItem
abbrev CaseLabel := ViewOf .caseLabel
abbrev ReturnStatement := ViewOf .returnStatement
abbrev Identifier := ViewOf .identifier
abbrev QualifiedIdentifier := ViewOf .qualifiedIdentifier
abbrev UnaryExpression := ViewOf .unaryExpression
abbrev ParenthesizedExpression := ViewOf .parenthesizedExpression
abbrev FunctionCall := ViewOf .functionCall
abbrev TypeConversion := ViewOf .typeConversion
abbrev ArgumentList := ViewOf .argumentList
abbrev ParamAssignment := ViewOf .paramAssignment
abbrev IntegerLiteral := ViewOf .integerLiteral
abbrev FloatLiteral := ViewOf .floatLiteral
abbrev TimeLiteral := ViewOf .timeLiteral
abbrev BooleanLiteral := ViewOf .booleanLiteral
abbrev StringLiteral := ViewOf .stringLiteral

/-- A unit with variables and a body. -/
abbrev UnitDeclaration := View NodeKind.isUnit

/-- An operator between two operands. -/
abbrev InfixExpression := View NodeKind.isInfix

abbrev Declaration := View NodeKind.isDeclaration
abbrev TypeName := View NodeKind.isTypeName
abbrev Statement := View NodeKind.isStatement
abbrev BlockItem := View NodeKind.isBlockItem
abbrev Expression := View NodeKind.isExpression

end StructuredText
