import StructuredText.Json.Value
import StructuredText.Report.Input
import StructuredText.Tree.Row
import StructuredText.Tree.SExpression

/-!
The forms in which the tree of a text is printed: a listing, an S-expression or a JSON document.
-/

namespace StructuredText

inductive Format where
  | tree
  | sexp
  | json
  deriving DecidableEq, Repr, Inhabited

namespace Format

def name : Format → String
  | .tree => "tree"
  | .sexp => "sexp"
  | .json => "json"

def ofName? : String → Option Format
  | "tree" => some .tree
  | "sexp" => some .sexp
  | "json" => some .json
  | _ => none

end Format

/-- Every line with its end. -/
def unlines (lines : List String) : String :=
  String.join (lines.map (· ++ "\n"))

namespace Parse

/-- All rows of the tree, the root first. -/
def rows (p : Parse) : List Row :=
  Row.ofForest 0 0 (.node .sourceFile p.children .nil)

def listing (p : Parse) (trivia : Bool) : List String :=
  (Row.shown trivia p.rows).map Row.render

def sexp (p : Parse) : String :=
  String.ofList (SExpression.ofNode .sourceFile p.children)

end Parse

namespace Report

/-- What a document says about a node or a token. A node without children has no such field. -/
def elementJson (kind : ElementKind) (span : Span) (text : Option (List Char))
    (children : List Json) : Json :=
  .object <|
    [("kind", .string kind.name.toList), ("start", .number span.start), ("end", .number span.stop)]
      ++ (text.toList.map fun cs => ("text", .string cs))
      ++ if children.isEmpty then [] else [("children", .array children)]

def forestJson (trivia : Bool) (start : Nat) : Forest Token → List Json
  | .nil => []
  | .leaf token rest =>
    let others := forestJson trivia (start + byteLength token.chars) rest
    if trivia || !token.isTrivia then
      elementJson (.token token.kind) token.span (some token.chars) [] :: others
    else others
  | .node kind children rest =>
    let stop := start + children.size
    elementJson (.node kind) ⟨start, stop⟩ none (forestJson trivia start children) ::
      forestJson trivia stop rest

/-- The tree below the root, and the root itself. -/
def treeJson (p : Parse) (trivia : Bool) : Json :=
  elementJson (.node .sourceFile) ⟨0, p.children.size⟩ none (forestJson trivia 0 p.children)

def errorJson (input : Input) (d : Diagnostic) : Json :=
  let p := input.position d.span.start
  let kind := match d.kind with
    | .lexical => "lexical"
    | .grammatical => "syntax"
  .object [("kind", .string kind.toList), ("message", .string d.message.toList),
    ("start", .number d.span.start), ("end", .number d.span.stop),
    ("line", .number p.line), ("column", .number p.column)]

def document (input : Input) (p : Parse) (trivia : Bool) : Json :=
  .object [("path", .string input.name.toList), ("tree", treeJson p trivia),
    ("errors", .array (p.diagnostics.map (errorJson input)))]

/-- The tree of an input in a form. -/
def renderTree (input : Input) (p : Parse) (format : Format) (trivia : Bool) : String :=
  match format with
  | .tree => unlines (p.listing trivia)
  | .sexp => p.sexp ++ "\n"
  | .json => (document input p trivia).render ++ "\n"

/-- Every token of a text on a line of its own. -/
def renderTokens (text : List Char) : String :=
  unlines ((Token.lex text).map fun t => (Row.ofToken 0 t).render)

end Report

end StructuredText
