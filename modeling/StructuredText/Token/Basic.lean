import StructuredText.Text.Span
import StructuredText.Token.Kind

/-!
Tokens: a kind, the characters of the source that have it, and where they start.
-/

namespace StructuredText

structure Token where
  kind : TokenKind
  chars : List Char
  start : Nat
  deriving DecidableEq, Repr, Inhabited

namespace Token

def text (t : Token) : String :=
  String.ofList t.chars

def stop (t : Token) : Nat :=
  t.start + byteLength t.chars

def span (t : Token) : Span :=
  ⟨t.start, t.stop⟩

def isTrivia (t : Token) : Bool :=
  t.kind.isTrivia

end Token

end StructuredText
