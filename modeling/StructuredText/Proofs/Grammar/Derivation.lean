import StructuredText.Grammar.Rule
import StructuredText.Proofs.Tree.Forest

/-!
The grammar of Structured Text, as the derivation trees that it allows. Nothing here mentions the
parser: a shape is a set of rows of trees over the symbols of a text, the productions are shapes
made of shapes, and operators are put in order by their levels. The places where the grammar is
recursive are the entries, and `Derives n` is what may stand at an entry if at most `n` entries are
open at a time.
-/

namespace StructuredText

/-- A set of rows of trees over the symbols of a text. -/
abbrev Shape := Forest Symbol → Prop

namespace Shape

/-- A single symbol of a kind. -/
def token (kind : TokenKind) : Shape :=
  fun f => ∃ x : Symbol, x.kind = kind ∧ f = .leaf x .nil

/-- A single node of a kind over a row of a shape. -/
def tree (kind : NodeKind) (p : Shape) : Shape :=
  fun f => ∃ c, p c ∧ f = .node kind c .nil

/-- Rows of several shapes, one after the other. -/
def cat : List Shape → Shape
  | [] => fun f => f = .nil
  | [p] => p
  | p :: ps => fun f => ∃ g h, p g ∧ cat ps h ∧ f = g ++ h

/-- A row of one of several shapes. -/
def oneOf (ps : List Shape) : Shape :=
  fun f => ∃ p ∈ ps, p f

/-- A row of a shape, or nothing. -/
def optional (p : Shape) : Shape :=
  fun f => f = .nil ∨ p f

/-- Any number of rows of a shape. -/
inductive many (p : Shape) : Shape where
  | nil : many p .nil
  | cons {f g : Forest Symbol} : p f → many p g → many p (f ++ g)

/-- At least one row of a shape. -/
def many1 (p : Shape) : Shape :=
  cat [p, many p]

/-- At least one row of a shape, with commas between them. -/
def listed (p : Shape) : Shape :=
  cat [p, many (cat [token .comma, p])]

variable {p q : Shape} {ps qs : List Shape} {f g : Forest Symbol}

@[simp] theorem oneOf_nil : oneOf [] f ↔ False := by
  simp [oneOf]

@[simp] theorem oneOf_cons : oneOf (p :: ps) f ↔ p f ∨ oneOf ps f := by
  simp [oneOf]

theorem cat_cons : cat (p :: ps) f ↔ ∃ g h, p g ∧ cat ps h ∧ f = g ++ h := by
  cases ps with
  | nil =>
      refine ⟨fun hf => ⟨f, .nil, hf, rfl, by simp⟩, ?_⟩
      rintro ⟨g, h, hg, rfl, rfl⟩
      rw [Forest.append_nil]
      exact hg
  | cons q qs => rfl

theorem cat_append (hf : cat ps f) (hg : cat qs g) : cat (ps ++ qs) (f ++ g) := by
  induction ps generalizing f with
  | nil =>
      obtain rfl : f = .nil := hf
      simpa using hg
  | cons p ps ih =>
      obtain ⟨h, h', hp, hps, rfl⟩ := cat_cons.mp hf
      exact cat_cons.mpr ⟨h, h' ++ g, hp, ih hps, by simp⟩

/-- The first item of a list, and the items after it. -/
theorem cat_listed (hf : cat (p :: many (cat [token .comma, p]) :: ps) f) :
    cat (listed p :: ps) f := by
  obtain ⟨g, h, hg, hh, rfl⟩ := cat_cons.mp hf
  obtain ⟨h, h', hmany, hps, rfl⟩ := cat_cons.mp hh
  exact cat_cons.mpr ⟨g ++ h, h', ⟨g, h, hg, hmany, rfl⟩, hps, by simp⟩

end Shape

open Shape

namespace Derivation

/-! ### Names -/

def identifier : Shape :=
  tree .identifier (token .ident)

/-- A name with points in it. -/
def qualified : Shape :=
  tree .qualifiedIdentifier (cat [identifier, many1 (cat [token .dot, identifier])])

def name : Shape :=
  oneOf [identifier, qualified]

/-- A name without points, of which it is given whether it names a conversion. -/
def identifierOf (conversion : Bool) : Shape :=
  tree .identifier fun f => ∃ x : Symbol, x.kind = .ident ∧ x.conversion = conversion ∧
    f = .leaf x .nil

/-! ### Expressions

From here on `D` is what stands at the places of recursion. -/

variable (D : Entry → Shape)

def argument : Shape :=
  tree .paramAssignment (oneOf [
    D (.expression 0),
    cat [identifier, token .assign, D (.expression 0)],
    cat [identifier, token .arrow, name],
    cat [token .kwNot, identifier, token .arrow, name]])

def argumentList : Shape :=
  tree .argumentList (cat [token .lparen, optional (listed (argument D)), token .rparen])

/-- A call, unless its name alone makes it a conversion. -/
def call : Shape :=
  tree .functionCall (cat [oneOf [identifierOf false, qualified], argumentList D])

/-- A conversion takes one value. -/
def conversion : Shape :=
  tree .typeConversion (cat [identifierOf true,
    tree .argumentList (cat [token .lparen, tree .paramAssignment (D (.expression 0)),
      token .rparen])])

def operand : Shape :=
  oneOf [
    tree .integerLiteral (token .intLiteral),
    tree .floatLiteral (token .realLiteral),
    tree .timeLiteral (token .timeLiteral),
    tree .stringLiteral (token .stringLiteral),
    tree .booleanLiteral (oneOf [token .kwTrue, token .kwFalse]),
    name,
    call D,
    conversion D,
    tree .parenthesizedExpression (cat [token .lparen, D (.expression 0), token .rparen])]

/-- An operand with or without a sign. No operator is as tight as a sign. -/
def signedOperand : Shape :=
  oneOf [
    operand D,
    tree .unaryExpression (cat [oneOf [token .minus, token .kwNot], D (.expression 30)])]

end Derivation

namespace Binding

/-- The least level of what an operator takes on its left. -/
def left (b : Binding) : Nat :=
  if b.rightAssociative then b.level + 1 else b.level

/-- The least level of what an operator takes on its right. -/
def right (b : Binding) : Nat :=
  if b.rightAssociative then b.level else b.level + 1

/-- Only the tightest operator groups to the right. -/
theorem rightAssociative_iff {k : TokenKind} {b : Binding} (h : k.binding? = some b) :
    b.rightAssociative = true ↔ b.level = 22 := by
  cases k <;> simp [TokenKind.binding?] at h <;> simp [← h]

theorem level_le {k : TokenKind} {b : Binding} (h : k.binding? = some b) : b.level ≤ 22 := by
  cases k <;> simp [TokenKind.binding?] at h <;> simp [← h]

/-- What an operator does not take on its right may have it on the left. -/
theorem left_le_iff {k k' : TokenKind} {b b' : Binding} (h : k.binding? = some b)
    (h' : k'.binding? = some b') : b'.left ≤ b.level ↔ b'.level < b.right := by
  have hb := rightAssociative_iff h
  have hb' := rightAssociative_iff h'
  have hle := level_le h
  have hle' := level_le h'
  unfold left right
  split <;> split <;> simp_all <;> omega

end Binding

theorem NodeKind.ofOperator_ne (k : TokenKind) :
    NodeKind.ofOperator k ≠ .error ∧ NodeKind.ofOperator k ≠ .pragmaItem := by
  cases k <;> decide

namespace Derivation

variable (D : Entry → Shape)

/-- Operands joined by operators of at least a level. What an operator takes on its left is part of
the same entry, what it takes on its right is an entry of its own. -/
inductive operation : Nat → Shape where
  | operand {least : Nat} {f : Forest Symbol} : signedOperand D f → operation least f
  | join {least : Nat} {x : Symbol} {b : Binding} {f g : Forest Symbol} :
    x.kind.binding? = some b → least ≤ b.level → operation b.left f → D (.expression b.right) g →
      operation least (.node (.ofOperator x.kind) (f ++ .leaf x g) .nil)

/-! ### Statements -/

/-- An entry of a block: a lone `;`, or a statement with its `;`. -/
def item : Shape :=
  oneOf [tree .noop (token .semicolon), cat [D .statement, token .semicolon]]

def block : Shape :=
  tree .block (many (item D))

def elsifClause : Shape :=
  tree .elsifClause (cat [token .kwElsif, D (.expression 0), token .kwThen, block D])

def elseClause : Shape :=
  tree .elseClause (cat [token .kwElse, block D])

def ifStatement : Shape :=
  tree .ifStatement (cat [token .kwIf, D (.expression 0), token .kwThen, block D,
    many (elsifClause D), optional (elseClause D), token .kwEndIf])

def labelValue : Shape :=
  oneOf [
    tree .integerLiteral (token .intLiteral),
    tree .unaryExpression (cat [token .minus, tree .integerLiteral (token .intLiteral)]),
    name]

def caseLabel : Shape :=
  tree .caseLabel (cat [labelValue, optional (cat [token .dotDot, labelValue])])

def caseItem : Shape :=
  tree .caseItem (cat [listed caseLabel, token .colon, block D])

def caseStatement : Shape :=
  tree .caseStatement (cat [token .kwCase, D (.expression 0), token .kwOf, many (caseItem D),
    optional (elseClause D), token .kwEndCase])

def returnStatement : Shape :=
  tree .returnStatement (cat [token .kwReturn, optional (D (.expression 0))])

def statement : Shape :=
  oneOf [
    tree .assignment (cat [name, token .assign, D (.expression 0)]),
    tree .fbInvocation (cat [name, argumentList D]),
    ifStatement D,
    caseStatement D,
    returnStatement D]

/-! ### Types and variables -/

def arrayRange : Shape :=
  tree .arrayRange (cat [D (.expression 0), token .dotDot, D (.expression 0)])

def typeName : Shape :=
  oneOf [
    identifier,
    tree .arrayType (cat [token .kwArray, token .lbracket, listed (arrayRange D), token .rbracket,
      token .kwOf, D .typeName])]

/-- What variables and fields have after their names. -/
def declared (names : Shape) : Shape :=
  cat [names, token .colon, D .typeName, optional (cat [token .assign, D (.expression 0)]),
    token .semicolon]

def varDecl : Shape :=
  tree .varDecl (declared D (listed identifier))

def structField : Shape :=
  tree .structField (declared D identifier)

def varSection : Shape :=
  tree .varSection (cat [fun f => ∃ x : Symbol, x.kind.opensVariables ∧ f = .leaf x .nil,
    optional (token .kwConstant), many (varDecl D), token .kwEndVar])

/-! ### Declarations -/

/-- A unit with a body, from its opening keyword to its closing one. -/
def unit (kind : NodeKind) (opener closer : TokenKind) (result : Shape) : Shape :=
  tree kind (cat [token opener, identifier, result, many (varSection D), optional (block D),
    token closer])

def typeDeclaration : Shape :=
  tree .typeDeclaration (cat [token .kwType, identifier, token .colon,
    tree .structDefinition (cat [token .kwStruct, many (structField D), token .kwEndStruct]),
    optional (token .semicolon), token .kwEndType])

/-- Only a function has a result. -/
def declaration : Shape :=
  oneOf [
    unit D .programDeclaration .kwProgram .kwEndProgram (cat []),
    unit D .functionDeclaration .kwFunction .kwEndFunction
      (optional (cat [token .colon, D .typeName])),
    unit D .functionBlockDeclaration .kwFunctionBlock .kwEndFunctionBlock (cat []),
    typeDeclaration D]

/-- What a whole text is: declarations, or a block of statements. -/
def file : Shape :=
  oneOf [many1 (declaration D), block D]

/-- What an entry stands for, where at most a number of entries are open at a time. -/
def Derives : Nat → Entry → Shape
  | 0, _ => fun _ => False
  | n + 1, .statement => statement (Derives n)
  | n + 1, .expression least => operation (Derives n) least
  | n + 1, .typeName => typeName (Derives n)

end Derivation

end StructuredText
