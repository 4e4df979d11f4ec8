import StructuredText.Tree.Forest

/-!
The nodes of a tree as an S-expression, for instance `(block (noop))`. Tokens are left out.
-/

namespace StructuredText.SExpression

/-- The nodes of a row, each after a blank. -/
def ofForest {α : Type} : Forest α → List Char
  | .nil => []
  | .leaf _ rest => ofForest rest
  | .node kind children rest =>
    ' ' :: '(' :: kind.symbol.toList ++ (ofForest children ++ ')' :: ofForest rest)

/-- A node of a kind and what is below it. -/
def ofNode {α : Type} (kind : NodeKind) (children : Forest α) : List Char :=
  '(' :: kind.symbol.toList ++ ofForest children ++ [')']

end StructuredText.SExpression
