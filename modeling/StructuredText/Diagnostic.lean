import StructuredText.Grammar.Problem
import StructuredText.Token.Lexer

/-!
What is wrong with a text: a message, and the bytes that it is about.
-/

namespace StructuredText

inductive Diagnostic.Kind where
  /-- A token that is none of the language. -/
  | lexical
  /-- A place where the tokens do not fit the grammar. -/
  | grammatical
  deriving DecidableEq, Repr

structure Diagnostic where
  kind : Diagnostic.Kind
  message : String
  span : Span
  deriving DecidableEq, Repr

namespace Diagnostic

def Kind.name : Kind → String
  | .lexical => "Lexical"
  | .grammatical => "Syntax"

/-- The message and where it applies. -/
def render (d : Diagnostic) : String :=
  s!"{d.message} at {d.span.render}"

def ofErrorToken (t : Token) : Diagnostic :=
  ⟨.lexical, Token.errorMessage t.chars, t.span⟩

def ofProblem (problem : Problem) (span : Span) : Diagnostic :=
  ⟨.grammatical, problem.message, span⟩

end Diagnostic

end StructuredText
