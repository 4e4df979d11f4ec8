import StructuredText.Descent.Declarations

/-!
Parsing a text: its full tree, and what is wrong with it.
-/

namespace StructuredText

/-- A parsed text. -/
structure Parse where
  source : List Char
  /-- What stands directly below the root. -/
  children : Forest Token
  /-- What is wrong with the text, ordered by where it starts. -/
  diagnostics : List Diagnostic

namespace Parse

/-- What is wrong with a text: first by where it starts, then its tokens before its grammar. -/
def arrange (tokens : List Token) (grammatical : List Diagnostic) : List Diagnostic :=
  let lexical := (tokens.filter fun t => t.kind = .error).map .ofErrorToken
  (lexical ++ grammatical).mergeSort fun a b => a.span.start ≤ b.span.start

def ofText (source : List Char) : Parse :=
  let tokens := Token.lex source
  let final := Descent.ofTokens tokens (byteLength source)
  { source
    children := final.written.fill tokens
    diagnostics := arrange tokens final.errors.reverse }

def ok (p : Parse) : Bool :=
  p.diagnostics.isEmpty

end Parse

end StructuredText
