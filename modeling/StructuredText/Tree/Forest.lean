import StructuredText.Tree.Kind

/-!
Rows of trees with labelled leaves. A node carries a `NodeKind`; a leaf carries a token, or, while a
tree is being made, only the kind of one.
-/

namespace StructuredText

/-- A row of trees: its first tree, and the row of those after it. -/
inductive Forest (α : Type) where
  | nil
  | leaf (label : α) (rest : Forest α)
  | node (kind : NodeKind) (children rest : Forest α)
  deriving DecidableEq, Repr, Inhabited

namespace Forest

variable {α : Type}

def append : Forest α → Forest α → Forest α
  | .nil, g => g
  | .leaf a rest, g => .leaf a (rest.append g)
  | .node k children rest, g => .node k children (rest.append g)

instance : Append (Forest α) :=
  ⟨append⟩

@[simp] theorem nil_append (f : Forest α) : nil ++ f = f := rfl

@[simp] theorem leaf_append (a : α) (f g : Forest α) : leaf a f ++ g = leaf a (f ++ g) := rfl

@[simp] theorem node_append (k : NodeKind) (c f g : Forest α) :
    node k c f ++ g = node k c (f ++ g) := rfl

@[simp] theorem append_nil (f : Forest α) : f ++ nil = f := by
  induction f with
  | nil => rfl
  | leaf a rest ih => simp [ih]
  | node k c rest _ ih => simp [ih]

@[simp] theorem append_assoc (f g h : Forest α) : f ++ g ++ h = f ++ (g ++ h) := by
  induction f with
  | nil => rfl
  | leaf a rest ih => simp [ih]
  | node k c rest _ ih => simp [ih]

/-- The row that has only leaves. -/
def ofLeaves : List α → Forest α
  | [] => .nil
  | a :: as => .leaf a (ofLeaves as)

/-- The labels of all leaves, from left to right. -/
def leaves : Forest α → List α
  | .nil => []
  | .leaf a rest => a :: rest.leaves
  | .node _ children rest => children.leaves ++ rest.leaves

@[simp] theorem leaves_append (f g : Forest α) : (f ++ g).leaves = f.leaves ++ g.leaves := by
  induction f with
  | nil => rfl
  | leaf a rest ih => simp [leaves, ih]
  | node k c rest _ ih => simp [leaves, ih]

@[simp] theorem leaves_ofLeaves (as : List α) : (ofLeaves as).leaves = as := by
  induction as with
  | nil => rfl
  | cons a as ih => simp [ofLeaves, leaves, ih]

/-- Whether the row has no leaf at any depth. -/
def isBare : Forest α → Bool
  | .nil => true
  | .leaf _ _ => false
  | .node _ children rest => children.isBare && rest.isBare

/-- The number of trees in the row. -/
def width : Forest α → Nat
  | .nil => 0
  | .leaf _ rest => rest.width + 1
  | .node _ _ rest => rest.width + 1

end Forest

end StructuredText
