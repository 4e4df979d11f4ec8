import StructuredText.Grammar.Statements

/-!
Variables, types and the units of a program.
-/

namespace StructuredText.Grammar

open Rule

/-! ### Types -/

def typeName : Rule :=
  .seq pragmas (.enter .typeName)

/-- A type where there should have been something before it. -/
def typeNameIfAny : Rule :=
  choose (fun a => a.kind = .ident || a.kind = .kwArray) typeName .skip

def arrayRange : Rule :=
  node .arrayRange (.seq (expression 0)
    (choose (fun a => a.kind = .dotDot) (.seq advance (expression 0))
      (.report (.missing .dotDot))))

def arrayBounds : Rule :=
  all [
    advance,
    arrayRange,
    .repeatWhile (fun a => a.kind = .comma) (.seq advance arrayRange),
    expect .rbracket]

def arrayType : Rule :=
  node .arrayType (all [
    advance,
    choose (fun a => a.kind = .lbracket) arrayBounds (.report (.missing .lbracket)),
    expect .kwOf,
    typeName])

/-- What stands for `Entry.typeName`. -/
def plainTypeName : Rule :=
  byKind fun
    | .ident => identifier
    | .kwArray => arrayType
    | _ => .report .typeName

/-! ### Variables and fields -/

/-- The names after the first one of a declaration. -/
def furtherNames : Rule :=
  all [
    .repeatWhile (fun a => a.kind = .comma && a.kindAt 1 = .ident)
      (all [advance, identifier, inlinePragmas]),
    whenAt .comma (.seq advance (.report .variableName))]

/-- The names, the type, the initial value and the `;` of variables or of a field. -/
def declared (names : Rule) : Rule :=
  all [
    pragmas,
    identifier,
    inlinePragmas,
    names,
    choose (fun a => a.kind = .colon) (.seq advance typeName)
      (.seq (.report (.missing .colon)) typeNameIfAny),
    inlinePragmas,
    whenAt .assign (.seq advance (expression 0)),
    inlinePragmas,
    expect .semicolon]

def varDecl : Rule :=
  node .varDecl (declared furtherNames)

/-- A field has a single name. -/
def structField : Rule :=
  node .structField (declared .skip)

/-- A list of declarations, up to a keyword that ends it. -/
def declarationList (item : Rule) (problem : Problem) : Rule :=
  .repeatWhile (fun a => !a.atEnd && !a.kind.endsList) <| .look fun a =>
    if a.kindAfterPragmas = .ident then item
    else if a.kind = .pragma then pragmas
    else if a.kind = .error then single .error
    else .seq (.report problem) (node .error (.consume Ahead.brokenDeclaration))

def varSection : Rule :=
  node .varSection (all [
    advance,
    accept .kwConstant,
    declarationList varDecl .variableDeclaration,
    expect .kwEndVar])

/-- Sections in any order, with the pragmas between them. -/
def varSections : Rule :=
  .repeatWhile (fun a => a.kindAfterPragmas.opensVariables) <|
    choose (fun a => a.kind = .pragma) pragmas varSection

def structDefinition : Rule :=
  node .structDefinition (all [
    advance,
    declarationList structField .structField,
    expect .kwEndStruct])

/-! ### Declarations -/

/-- What tells the units with a body apart. -/
structure UnitForm where
  node : NodeKind
  nameProblem : Problem
  closer : TokenKind
  hasResult : Bool := false

def program : UnitForm :=
  ⟨.programDeclaration, .programName, .kwEndProgram, false⟩

def function : UnitForm :=
  ⟨.functionDeclaration, .functionName, .kwEndFunction, true⟩

def functionBlock : UnitForm :=
  ⟨.functionBlockDeclaration, .functionBlockName, .kwEndFunctionBlock, false⟩

def declaredName (problem : Problem) : Rule :=
  choose (fun a => a.kind = .ident) identifier (.report problem)

/-- A unit without statements has no block. -/
def unitBody (stop : BlockEnd) : Rule :=
  choose (Ahead.atBlockEnd stop) .skip (block stop)

def unitDeclaration (form : UnitForm) : Rule :=
  node form.node (all [
    advance,
    declaredName form.nameProblem,
    if form.hasResult then whenAt .colon (.seq advance typeName) else .skip,
    varSections,
    unitBody ⟨[form.closer], false⟩,
    expect form.closer])

def typeDeclaration : Rule :=
  node .typeDeclaration (all [
    advance,
    declaredName .typeName,
    expect .colon,
    choose (fun a => a.kind = .kwStruct) structDefinition
      (.seq (.report (.missing .kwStruct)) typeNameIfAny),
    accept .semicolon,
    expect .kwEndType])

/-! ### Whole texts -/

/-- What stands between declarations and is none, up to something that may be one. -/
def strayText : Rule :=
  .seq (.report .declaration) <| node .error <| .consume <|
    Ahead.firstAndUntil fun k => k.opensDeclaration || k = .pragma || k = .error

def declaration : Rule :=
  byKind fun
    | .kwFunctionBlock => unitDeclaration functionBlock
    | .kwFunction => unitDeclaration function
    | .kwProgram => unitDeclaration program
    | .kwType => typeDeclaration
    | .pragma => pragmas
    | .error => single .error
    | _ => strayText

def declarations : Rule :=
  .repeatWhile (fun a => !a.atEnd) declaration

/-- A text of statements is one block. Only a declaration ends it early, and then all the rest is
an error. -/
def statements : Rule :=
  .seq (block ⟨[], false⟩) <| choose Ahead.atEnd .skip <|
    .seq (.report .mixedDeclarations) (node .error (.consume List.length))

/-- The first symbol that is no pragma decides whether a text has declarations or statements. -/
def sourceFile : Rule :=
  choose (fun a => a.kindAfterPragmas.opensDeclaration) declarations statements

end StructuredText.Grammar
