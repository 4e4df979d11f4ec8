import StructuredText.Parse
import StructuredText.Tree.Row

/-!
Nodes in their places. A `Node` knows what is below it, where it starts, and what stands around it;
from the latter come the comments that belong to it.
-/

namespace StructuredText

/-- What a node sees beside it: a token, or another node of which it sees only that there is
one. -/
abbrev Neighbour := Option Token

structure Node where
  kind : NodeKind
  start : Nat
  children : Forest Token
  /-- What stands before the node, the nearest first. Where nothing more stands before it in the
  node around it, the row goes on with what stands before that node. -/
  before : List Neighbour
  /-- What stands after the node, in the same way. -/
  after : List Neighbour

namespace Forest

/-- The trees of a row as neighbours. -/
def neighbours : Forest Token → List Neighbour
  | .nil => []
  | .leaf t rest => some t :: rest.neighbours
  | .node _ _ rest => none :: rest.neighbours

end Forest

/-- A tree of a row. -/
inductive Element where
  | token (t : Token)
  | node (n : Node)

namespace Element

def token? : Element → Option Token
  | .token t => some t
  | .node _ => none

def node? : Element → Option Node
  | .token _ => none
  | .node n => some n

/-- Whether this is a token of a kind. -/
def isToken (kind : TokenKind) : Element → Bool
  | .token t => t.kind = kind
  | .node _ => false

/-- The trees of a row that starts at a byte, with what stands before the row and, from its first
tree on, all that follows. -/
def ofForest (start : Nat) (before after : List Neighbour) : Forest Token → List Element
  | .nil => []
  | .leaf t rest =>
    .token t :: ofForest (start + byteLength t.chars) (some t :: before) after.tail rest
  | .node kind children rest =>
    .node ⟨kind, start, children, before, after.tail⟩ ::
      ofForest (start + children.size) (none :: before) after.tail rest

end Element

namespace Node

def stop (n : Node) : Nat :=
  n.start + n.children.size

def span (n : Node) : Span :=
  ⟨n.start, n.stop⟩

/-- All tokens of the node, at any depth. -/
def allTokens (n : Node) : List Token :=
  n.children.leaves

/-- The source text of the node. -/
def text (n : Node) : List Char :=
  n.allTokens.flatMap Token.chars

/-- The children of the node, nodes and tokens. -/
def elements (n : Node) : List Element :=
  Element.ofForest n.start n.before (n.children.neighbours ++ n.after) n.children

/-- The nodes of a row and all nodes below them, each before those below it. The arguments are
those of `Element.ofForest`. -/
def ofForest (start : Nat) (before after : List Neighbour) : Forest Token → List Node
  | .nil => []
  | .leaf t rest => ofForest (start + byteLength t.chars) (some t :: before) after.tail rest
  | .node kind children rest =>
    ⟨kind, start, children, before, after.tail⟩ ::
      (ofForest start before (children.neighbours ++ after.tail) children ++
        ofForest (start + children.size) (none :: before) after.tail rest)

/-- The node itself and all nodes below it. -/
def selfAndBelow (n : Node) : List Node :=
  n :: ofForest n.start n.before (n.children.neighbours ++ n.after) n.children

/-! ### Comments -/

/-- The tokens in front of a row up to the first node. -/
def nearby : List Neighbour → List Token
  | some t :: rest => t :: nearby rest
  | _ => []

/-- Whether a token is a comment or blank space without an empty line. -/
def bridgesLeading (t : Token) : Bool :=
  t.kind.isComment || (t.kind = .whitespace && t.chars.count '\n' < 2)

/-- Whether a token is a semicolon or blank space within a line. -/
def bridgesTrailing (t : Token) : Bool :=
  t.kind = .semicolon || (t.kind = .whitespace && !t.chars.contains '\n')

/-- The comments before the node, with no empty line between them and it. -/
def leadingComments (n : Node) : List Token :=
  (((nearby n.before).takeWhile bridgesLeading).filter fun t => t.kind.isComment).reverse

/-- The comment after the node on the same line. -/
def trailingComment? (n : Node) : Option Token :=
  ((nearby n.after).dropWhile bridgesTrailing).head?.filter fun t => t.kind.isComment

/-- The comments that belong to the node. -/
def comments (n : Node) : List Token :=
  n.leadingComments ++ n.trailingComment?.toList

end Node

namespace Parse

/-- The root of the tree. -/
def root (p : Parse) : Node :=
  ⟨.sourceFile, 0, p.children, [], []⟩

end Parse

end StructuredText
