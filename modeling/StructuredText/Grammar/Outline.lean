import StructuredText.Grammar.Declarations

/-!
The outline of a text: the grammar applied to its symbols. Constructs nest up to a limit; what is
nested more deeply is skipped into an error node.
-/

namespace StructuredText

namespace Entry

/-- The rule that an entry stands for. -/
def rule : Entry → Rule
  | .statement => Grammar.statement
  | .expression least => Grammar.operation least
  | .typeName => Grammar.plainTypeName

/-- The symbols that end the construct if it is skipped. -/
def stops : Entry → List TokenKind
  | .statement => []
  | .expression _ => [.comma, .colon, .dotDot, .kwThen, .kwOf]
  | .typeName => [.assign]

/-- What is done where an entry would be nested too deeply. -/
def skipped (entry : Entry) : Rule :=
  .seq (.report .nestingTooDeep) (Rule.node .error (.consume (Ahead.tooDeep entry.stops 0)))

/-- Follows an entry with a number of levels left. -/
def run : Nat → Entry → ParserState → ParserState
  | 0, entry, s => entry.skipped.run (fun _ s => s) s
  | levels + 1, entry, s => entry.rule.run (run levels) s

end Entry

/-- How many statements, expressions and type names may be open at a time. -/
def nestingLimit : Nat := 256

namespace Grammar

/-- What the grammar makes of the symbols of a text. -/
def parse (symbols : Ahead) : ParserState :=
  sourceFile.run (Entry.run nestingLimit) (ParserState.start symbols)

end Grammar

end StructuredText
