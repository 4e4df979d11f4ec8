import StructuredText.Token.Basic
import StructuredText.Token.ConversionName

/-!
What the grammar sees of a text: the kinds of the tokens that are not trivia, and of each name
whether it names a type conversion. Nothing else of a text can change how it is parsed.
-/

namespace StructuredText

structure Symbol where
  kind : TokenKind
  /-- Whether this is a name of the form `SOURCE_TO_TARGET`. -/
  conversion : Bool := false
  deriving DecidableEq, Repr, Inhabited

namespace Symbol

def ofToken (t : Token) : Symbol :=
  ⟨t.kind, t.kind = .ident && ConversionName.isConversion t.chars⟩

end Symbol

/-- The symbols from the current one to the end of the text. -/
abbrev Ahead := List Symbol

namespace Ahead

/-- The kind of the symbol some places ahead, `eof` behind the last one. -/
def kindAt (a : Ahead) (n : Nat) : TokenKind :=
  (a[n]?).elim .eof Symbol.kind

/-- The kind of the current symbol. -/
def kind (a : Ahead) : TokenKind :=
  a.kindAt 0

/-- The kind of the first symbol that is no pragma. -/
def kindAfterPragmas (a : Ahead) : TokenKind :=
  Ahead.kind (a.dropWhile fun s => s.kind = .pragma)

/-- How many symbols of a class stand in front. -/
def countWhile (p : TokenKind → Bool) (a : Ahead) : Nat :=
  (a.takeWhile fun s => p s.kind).length

end Ahead

end StructuredText
