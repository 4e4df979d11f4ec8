import StructuredText.Text.Quoted
import StructuredText.Token.Basic
import StructuredText.Tree.Forest

/-!
A tree as a listing: one row for each of its nodes and tokens, in the order of the text.
-/

namespace StructuredText

namespace Forest

/-- The number of bytes of all tokens. -/
def size : Forest Token → Nat
  | .nil => 0
  | .leaf token rest => byteLength token.chars + rest.size
  | .node _ children rest => children.size + rest.size

end Forest

/-- A line of a listing. -/
structure Row where
  depth : Nat
  kind : ElementKind
  span : Span
  /-- The text of a token; a node has none of its own. -/
  text : Option (List Char)
  deriving DecidableEq, Repr

namespace Row

def ofToken (depth : Nat) (t : Token) : Row :=
  ⟨depth, .token t.kind, t.span, some t.chars⟩

/-- The rows of a forest that starts at a byte. -/
def ofForest (depth start : Nat) : Forest Token → List Row
  | .nil => []
  | .leaf token rest =>
    ofToken depth token :: ofForest depth (start + byteLength token.chars) rest
  | .node kind children rest =>
    let stop := start + children.size
    ⟨depth, .node kind, ⟨start, stop⟩, none⟩ ::
      (ofForest (depth + 1) start children ++ ofForest depth stop rest)

def isTrivia (r : Row) : Bool :=
  r.kind.isTrivia

/-- The rows that a listing shows. -/
def shown (trivia : Bool) (rows : List Row) : List Row :=
  rows.filter fun r => trivia || !r.isTrivia

/-- The kind and the place, and the text of a token in quotes, two blanks to the right for each
level of depth. -/
def render (r : Row) : String :=
  let indent := "".pushn ' ' (2 * r.depth)
  let text := r.text.elim "" fun cs => " " ++ String.ofList (Quoted.quote cs)
  s!"{indent}{r.kind.name}@{r.span.render}{text}"

end Row

end StructuredText
