import StructuredText.View.Statements

/-!
The parts of whole texts, declarations, variables and types.
-/

namespace StructuredText

/-! ### Types -/

namespace ArrayRange

def start? (v : ArrayRange) : Option Expression :=
  v.node.partAt? 0

def end? (v : ArrayRange) : Option Expression :=
  v.node.partAt? 1

end ArrayRange

namespace ArrayType

/-- The bounds of each dimension. -/
def ranges (v : ArrayType) : List ArrayRange :=
  v.node.parts

def elementType? (v : ArrayType) : Option TypeName :=
  v.node.partAfter? .kwOf

end ArrayType

/-! ### Variables and fields -/

namespace VarDecl

def names (v : VarDecl) : List Identifier :=
  v.node.partsBefore .colon

/-- The first name. -/
def name? (v : VarDecl) : Option Identifier :=
  v.node.part?

def typeName? (v : VarDecl) : Option TypeName :=
  v.node.partAfter? .colon

def initializer? (v : VarDecl) : Option Expression :=
  v.node.partAfter? .assign

def pragmas (v : VarDecl) : List PragmaItem :=
  v.node.parts

end VarDecl

namespace StructField

def name? (v : StructField) : Option Identifier :=
  v.node.part?

def typeName? (v : StructField) : Option TypeName :=
  v.node.partAfter? .colon

def initializer? (v : StructField) : Option Expression :=
  v.node.partAfter? .assign

def pragmas (v : StructField) : List PragmaItem :=
  v.node.parts

end StructField

namespace StructDefinition

def fields (v : StructDefinition) : List StructField :=
  v.node.parts

end StructDefinition

/-- What the variables of a section are for. -/
inductive SectionRole where
  | var
  | input
  | output
  | inOut
  | temp
  | static
  | global
  | outside
  | constant
  deriving DecidableEq, Repr

namespace SectionRole

def name : SectionRole → String
  | .var => "Var"
  | .input => "Input"
  | .output => "Output"
  | .inOut => "InOut"
  | .temp => "Temp"
  | .static => "Static"
  | .global => "Global"
  | .outside => "External"
  | .constant => "Constant"

/-- The role that a keyword gives. Only plain variables get another one by being constant. -/
def ofKeyword? (isConstant : Bool) : TokenKind → Option SectionRole
  | .kwVar => some (if isConstant then .constant else .var)
  | .kwVarInput => some .input
  | .kwVarOutput => some .output
  | .kwVarInOut => some .inOut
  | .kwVarTemp => some .temp
  | .kwVarStatic => some .static
  | .kwVarGlobal => some .global
  | .kwVarExternal => some .outside
  | _ => none

end SectionRole

namespace VarSection

def isConstant (v : VarSection) : Bool :=
  (v.node.tokenOf? .kwConstant).isSome

def role? (v : VarSection) : Option SectionRole := do
  SectionRole.ofKeyword? v.isConstant (← v.node.firstToken?).kind

def declarations (v : VarSection) : List VarDecl :=
  v.node.parts

/-- The pragmas that belong to no declaration. -/
def pragmas (v : VarSection) : List PragmaItem :=
  v.node.parts

end VarSection

/-! ### Declarations -/

namespace Declaration

def name? (v : Declaration) : Option Identifier :=
  v.node.part?

end Declaration

namespace UnitDeclaration

def name? (v : UnitDeclaration) : Option Identifier :=
  v.node.part?

def varSections (v : UnitDeclaration) : List VarSection :=
  v.node.parts

/-- The pragmas between the sections. -/
def pragmas (v : UnitDeclaration) : List PragmaItem :=
  v.node.parts

def body? (v : UnitDeclaration) : Option Block :=
  v.node.part?

end UnitDeclaration

namespace FunctionDeclaration

def returnType? (v : FunctionDeclaration) : Option TypeName :=
  v.node.partAfter? .colon

end FunctionDeclaration

namespace TypeDeclaration

def name? (v : TypeDeclaration) : Option Identifier :=
  v.node.part?

def structDefinition? (v : TypeDeclaration) : Option StructDefinition :=
  v.node.part?

end TypeDeclaration

/-! ### Whole texts -/

/-- What a text is made of. -/
inductive SourceMode where
  | declarations
  | block
  deriving DecidableEq, Repr

namespace SourceMode

def name : SourceMode → String
  | .declarations => "Declarations"
  | .block => "Block"

end SourceMode

namespace SourceFile

def declarations (v : SourceFile) : List Declaration :=
  v.node.parts

/-- The statements of a text without declarations. -/
def block? (v : SourceFile) : Option Block :=
  v.node.part?

def mode (v : SourceFile) : SourceMode :=
  if v.block?.isSome then .block else .declarations

/-- The pragmas between declarations. -/
def pragmas (v : SourceFile) : List PragmaItem :=
  v.node.parts

/-- Every comment of the text, wherever it stands. -/
def allComments (v : SourceFile) : List Token :=
  v.node.allTokens.filter fun t => t.kind.isComment

end SourceFile

namespace Parse

def sourceFile (p : Parse) : SourceFile :=
  ⟨p.root, by simp [root]⟩

end Parse

end StructuredText
