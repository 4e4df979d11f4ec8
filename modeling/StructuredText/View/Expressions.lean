import StructuredText.Token.ConversionName
import StructuredText.Token.Value
import StructuredText.View.Basic

/-!
The parts of names, calls, operators and literals.
-/

namespace StructuredText

/-! ### Names -/

namespace Identifier

def token? (v : Identifier) : Option Token :=
  v.node.tokenOf? .ident

/-- The name as it is written. -/
def name (v : Identifier) : List Char :=
  v.token?.elim [] Token.chars

end Identifier

namespace QualifiedIdentifier

def segments (v : QualifiedIdentifier) : List Identifier :=
  v.node.parts

/-- The segments with points between them, whatever stands between them in the text. -/
def path (v : QualifiedIdentifier) : List Char :=
  ['.'].intercalate (v.segments.map Identifier.name)

end QualifiedIdentifier

/-! ### Operators -/

namespace UnaryExpression

def operator? (v : UnaryExpression) : Option Token :=
  v.node.firstToken?

def operand? (v : UnaryExpression) : Option Expression :=
  v.node.part?

end UnaryExpression

namespace InfixExpression

def left? (v : InfixExpression) : Option Expression :=
  v.node.partAt? 0

def operator? (v : InfixExpression) : Option Token :=
  v.node.firstToken?

def right? (v : InfixExpression) : Option Expression :=
  v.node.partAt? 1

end InfixExpression

namespace ParenthesizedExpression

def inner? (v : ParenthesizedExpression) : Option Expression :=
  v.node.part?

end ParenthesizedExpression

/-! ### Calls -/

/-- The forms of an argument: `value`, `name := value` and `[NOT] name => target`. -/
inductive ParamForm where
  | positional
  | named
  | output
  deriving DecidableEq, Repr

namespace ParamForm

def name : ParamForm → String
  | .positional => "Positional"
  | .named => "Named"
  | .output => "Output"

end ParamForm

namespace ParamAssignment

def form (v : ParamAssignment) : ParamForm :=
  if (v.node.tokenOf? .arrow).isSome then .output
  else if (v.node.tokenOf? .assign).isSome then .named
  else .positional

/-- The name before the sign. -/
def name? (v : ParamAssignment) : Option Identifier :=
  match v.form with
  | .positional => none
  | .named | .output => v.node.part?

/-- The value that goes in. -/
def value? (v : ParamAssignment) : Option Expression :=
  match v.form with
  | .positional => v.node.part?
  | .named => v.node.partAfter? .assign
  | .output => none

def isNegated (v : ParamAssignment) : Bool :=
  (v.node.tokenOf? .kwNot).isSome

/-- The variable that an output goes to. -/
def outputTarget? (v : ParamAssignment) : Option Expression :=
  v.node.partAfter? .arrow

end ParamAssignment

namespace ArgumentList

def params (v : ArgumentList) : List ParamAssignment :=
  v.node.parts

end ArgumentList

namespace FunctionCall

def name? (v : FunctionCall) : Option Expression :=
  v.node.partAt? 0

def arguments? (v : FunctionCall) : Option ArgumentList :=
  v.node.part?

end FunctionCall

namespace TypeConversion

/-- The name of the conversion. -/
def conversionType? (v : TypeConversion) : Option Token := do
  let name : Identifier ← v.node.part?
  name.token?

def arguments? (v : TypeConversion) : Option ArgumentList :=
  v.node.part?

/-- The value that is converted. -/
def value? (v : TypeConversion) : Option Expression := do
  let param ← (← v.arguments?).params.head?
  param.value?

/-- The type that is converted from. -/
def sourceType? (v : TypeConversion) : Option (List Char) := do
  let (source, _) ← ConversionName.split? (← v.conversionType?).chars
  return source

/-- The type that is converted to. -/
def targetType? (v : TypeConversion) : Option (List Char) := do
  let (_, target) ← ConversionName.split? (← v.conversionType?).chars
  return target

end TypeConversion

/-! ### Literals -/

namespace IntegerLiteral

def token? (v : IntegerLiteral) : Option Token :=
  v.node.firstToken?

/-- The value, unless it is too large. -/
def value? (v : IntegerLiteral) : Option Nat := do
  Integer.value? (← v.token?).chars

end IntegerLiteral

namespace FloatLiteral

def token? (v : FloatLiteral) : Option Token :=
  v.node.firstToken?

end FloatLiteral

namespace TimeLiteral

def token? (v : TimeLiteral) : Option Token :=
  v.node.firstToken?

end TimeLiteral

namespace BooleanLiteral

def token? (v : BooleanLiteral) : Option Token :=
  v.node.firstToken?

def value (v : BooleanLiteral) : Bool :=
  v.token?.any fun t => t.kind = .kwTrue

end BooleanLiteral

namespace StringLiteral

def token? (v : StringLiteral) : Option Token :=
  v.node.firstToken?

/-- The text between the quotes. -/
def value? (v : StringLiteral) : Option (List Char) := do
  Delimited.string? (← v.token?).chars

end StringLiteral

end StructuredText
