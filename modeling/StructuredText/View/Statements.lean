import StructuredText.View.Expressions

/-!
The parts of blocks and statements.
-/

namespace StructuredText

namespace PragmaItem

def token? (v : PragmaItem) : Option Token :=
  v.node.tokenOf? .pragma

/-- The text between the braces, without blanks around it. -/
def content? (v : PragmaItem) : Option (List Char) := do
  Delimited.pragma? (← v.token?).chars

end PragmaItem

namespace Block

/-- What is in the block, in order. -/
def items (v : Block) : List BlockItem :=
  v.node.parts

/-- The same without lone semicolons and pragmas. -/
def statements (v : Block) : List Statement :=
  v.node.parts

end Block

namespace Assignment

def target? (v : Assignment) : Option Expression :=
  v.node.partAt? 0

def expression? (v : Assignment) : Option Expression :=
  v.node.partAfter? .assign

end Assignment

namespace FbInvocation

/-- The instance that is invoked. -/
def name? (v : FbInvocation) : Option Expression :=
  v.node.partAt? 0

def arguments? (v : FbInvocation) : Option ArgumentList :=
  v.node.part?

end FbInvocation

namespace ElseClause

def body? (v : ElseClause) : Option Block :=
  v.node.part?

end ElseClause

namespace ElsifClause

def condition? (v : ElsifClause) : Option Expression :=
  v.node.part?

def consequence? (v : ElsifClause) : Option Block :=
  v.node.part?

end ElsifClause

namespace IfStatement

/-- The first condition. -/
def condition? (v : IfStatement) : Option Expression :=
  v.node.part?

/-- What is done under the first condition. -/
def consequence? (v : IfStatement) : Option Block :=
  v.node.part?

def elsifClauses (v : IfStatement) : List ElsifClause :=
  v.node.parts

def elseClause? (v : IfStatement) : Option ElseClause :=
  v.node.part?

end IfStatement

namespace CaseLabel

/-- Whether the label is a range of values. -/
def isRange (v : CaseLabel) : Bool :=
  (v.node.tokenOf? .dotDot).isSome

/-- The value, or the first of a range. -/
def start? (v : CaseLabel) : Option Expression :=
  v.node.partAt? 0

/-- The last value of a range. -/
def end? (v : CaseLabel) : Option Expression :=
  if v.isRange then v.node.partAt? 1 else none

end CaseLabel

namespace CaseItem

def labels (v : CaseItem) : List CaseLabel :=
  v.node.parts

def body? (v : CaseItem) : Option Block :=
  v.node.part?

end CaseItem

namespace CaseStatement

def value? (v : CaseStatement) : Option Expression :=
  v.node.part?

def items (v : CaseStatement) : List CaseItem :=
  v.node.parts

def elseClause? (v : CaseStatement) : Option ElseClause :=
  v.node.part?

end CaseStatement

namespace ReturnStatement

def expression? (v : ReturnStatement) : Option Expression :=
  v.node.part?

end ReturnStatement

end StructuredText
