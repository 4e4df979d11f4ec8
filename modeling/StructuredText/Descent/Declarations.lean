import StructuredText.Descent.Statements
import StructuredText.Grammar.Outline

/-!
Variables, types, the units of a program, and whole texts.
-/

namespace StructuredText.Descent

open Grammar (UnitForm program function functionBlock)

section

variable (deeper : Entry → Descent → Descent)

/-! ### Types -/

def atTypeName (d : Descent) : Bool :=
  d.isAtAny [.ident, .kwArray]

def typeName (d : Descent) : Descent :=
  deeper .typeName d.pragmas

/-- A type where there should have been something before it. -/
def typeNameIfAny (d : Descent) : Descent :=
  if d.atTypeName then typeName deeper d else d

def arrayRange (d : Descent) : Descent :=
  d.node .arrayRange fun d =>
    let d := expression deeper d
    if d.isAt .dotDot then expression deeper d.bump else d.report (.missing .dotDot)

def arrayBounds (d : Descent) : Descent :=
  let d := (arrayRange deeper d).repeatWhile (·.isAt .comma) fun d => arrayRange deeper d.bump
  d.expect .rbracket

def arrayType (d : Descent) : Descent :=
  d.node .arrayType fun d =>
    let d := d.bump
    let d := if d.isAt .lbracket then arrayBounds deeper d.bump else d.report (.missing .lbracket)
    typeName deeper (d.expect .kwOf)

def plainTypeName (d : Descent) : Descent :=
  match d.kind with
  | .ident => d.identifier
  | .kwArray => arrayType deeper d
  | _ => d.report .typeName

/-! ### Variables and fields -/

/-- The names after the first one of a declaration. -/
def furtherNames (d : Descent) : Descent :=
  d.separatedNames .comma (fun d => d.identifier.inlinePragmas) .variableName d.cursor.left

/-- The declaration of variables, or of a field, which has a single name. -/
def declared (kind : NodeKind) (d : Descent) : Descent :=
  d.node kind fun d =>
    let d := d.pragmas.identifier.inlinePragmas
    let d := if kind = .varDecl then d.furtherNames else d
    let d :=
      if d.isAt .colon then typeName deeper d.bump else typeNameIfAny deeper (d.report (.missing .colon))
    let d := d.inlinePragmas
    let d := if d.isAt .assign then expression deeper d.bump else d
    d.inlinePragmas.expect .semicolon

/-- Goes through a broken declaration: through its `;`, or up to a name that may begin the next one. -/
def skipDeclaration (closer : TokenKind) : (turns : Nat) → Descent → Descent
  | 0, d => d
  | turns + 1, d =>
    if d.atEnd || d.isAt closer || d.atListEnd then d
    else if d.isAt .semicolon then d.bump
    else
      let d := d.bump
      if d.isAt .ident then d else skipDeclaration closer turns d

/-- An entry of a list of declarations, which a keyword closes. -/
def declarationItem (kind : NodeKind) (closer : TokenKind) (problem : Problem) (d : Descent) : Descent :=
  if d.isAt .ident || d.isAt .pragma && d.cursor.kindAfterPragmas = .ident then declared deeper kind d
  else if d.isAt .pragma then d.pragmas
  else if d.isAt .error then d.single .error
  else (d.report problem).node .error fun d => d.skipDeclaration closer d.cursor.left

/-- Whether a list of declarations goes on. -/
def inDeclarations (closer : TokenKind) (d : Descent) : Bool :=
  !(d.atEnd || d.isAt closer) && (d.isAtAny [.ident, .pragma, .error] || !d.atListEnd)

def declarationList (kind : NodeKind) (closer : TokenKind) (problem : Problem) (d : Descent) : Descent :=
  (d.repeatWhile (inDeclarations closer) (declarationItem deeper kind closer problem)).expect closer

def varSection (d : Descent) : Descent :=
  d.node .varSection fun d =>
    declarationList deeper .varDecl .kwEndVar .variableDeclaration (d.bump.accept .kwConstant)

/-- Sections in any order, with the pragmas between them. -/
def varSections (d : Descent) : Descent :=
  d.repeatWhile
    (fun d => d.kind.opensVariables || d.isAt .pragma && d.cursor.kindAfterPragmas.opensVariables)
    fun d => if d.kind.opensVariables then varSection deeper d else d.pragmas

def structDefinition (d : Descent) : Descent :=
  d.node .structDefinition fun d =>
    declarationList deeper .structField .kwEndStruct .structField d.bump

/-! ### Declarations -/

def declaredName (problem : Problem) (d : Descent) : Descent :=
  if d.isAt .ident then d.identifier else d.report problem

def unitDeclaration (form : UnitForm) (d : Descent) : Descent :=
  d.node form.node fun d =>
    let d := d.bump.declaredName form.nameProblem
    let d := if form.hasResult && d.isAt .colon then typeName deeper d.bump else d
    let d := varSections deeper d
    let stop : BlockEnd := ⟨[form.closer], false⟩
    let d := if d.atBlockEnd stop then d else block deeper stop d
    d.expect form.closer

def typeDeclaration (d : Descent) : Descent :=
  d.node .typeDeclaration fun d =>
    let d := (d.bump.declaredName .typeName).expect .colon
    let d :=
      if d.isAt .kwStruct then structDefinition deeper d
      else typeNameIfAny deeper (d.report (.missing .kwStruct))
    (d.accept .semicolon).expect .kwEndType

/-! ### Whole texts -/

/-- What stands between declarations and is none, up to something that may be one. -/
def strayText (d : Descent) : Descent :=
  (d.report .declaration).node .error fun d =>
    d.bump.repeatWhile
      (fun d => !d.atEnd && !d.kind.opensDeclaration && !d.isAtAny [.pragma, .error]) bump

def declaration (d : Descent) : Descent :=
  match d.kind with
  | .kwFunctionBlock => unitDeclaration deeper functionBlock d
  | .kwFunction => unitDeclaration deeper function d
  | .kwProgram => unitDeclaration deeper program d
  | .kwType => typeDeclaration deeper d
  | .pragma => d.pragmas
  | .error => d.single .error
  | _ => d.strayText

def declarations (d : Descent) : Descent :=
  d.repeatWhile (fun d => !d.atEnd) (declaration deeper)

/-- A text of statements is one block. Only a declaration ends it early, and then all the rest is
an error. -/
def statements (d : Descent) : Descent :=
  let d := block deeper ⟨[], false⟩ d
  if d.atEnd then d
  else (d.report .mixedDeclarations).node .error (repeatWhile (fun d => !d.atEnd) bump)

/-- The first token that is neither trivia nor a pragma decides whether a text has declarations or
statements. -/
def sourceFile (d : Descent) : Descent :=
  if d.cursor.kindAfterPragmas.opensDeclaration then declarations deeper d else statements deeper d

end

/-! ### Levels -/

/-- Parses what an entry stands for, with a number of levels left. -/
def enter : (levels : Nat) → Entry → Descent → Descent
  | 0, entry, d => d.skipTooDeep entry.stops
  | levels + 1, .statement, d => statement (enter levels) d
  | levels + 1, .expression least, d => operation (enter levels) least d
  | levels + 1, .typeName, d => plainTypeName (enter levels) d

/-- Parses the tokens of a text. -/
def ofTokens (tokens : List Token) (size : Nat) : Descent :=
  sourceFile (enter nestingLimit) (start tokens size)

end StructuredText.Descent
