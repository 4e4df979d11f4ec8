import StructuredText.Tree.Node
import StructuredText.View.Basic
import StructuredText.Proofs.Tree.Forest

/-!
The nodes of a row of trees: those that stand in the row itself, and those at any depth. A node of a
tree, with its place, is one of the row that the tree was made from; what stands in it, trivia
aside, is found again in the outline of the tree.
-/

namespace StructuredText

namespace Forest

variable {α β : Type}

/-- The nodes of the row itself, each with its children. -/
def trees : Forest α → List (NodeKind × Forest α)
  | .nil => []
  | .leaf _ rest => rest.trees
  | .node k children rest => (k, children) :: rest.trees

/-- All nodes of the row, at any depth, each with its children. -/
def nodes : Forest α → List (NodeKind × Forest α)
  | .nil => []
  | .leaf _ rest => rest.nodes
  | .node k children rest => (k, children) :: (children.nodes ++ rest.nodes)

/-- The leaves of the row itself. -/
def ownLeaves : Forest α → List α
  | .nil => []
  | .leaf a rest => a :: rest.ownLeaves
  | .node _ _ rest => rest.ownLeaves

/-- The first leaf of the row itself. -/
def firstLeaf? : Forest α → Option α
  | .nil => none
  | .leaf a _ => some a
  | .node _ _ rest => rest.firstLeaf?

@[simp] theorem trees_nil : (nil : Forest α).trees = [] := rfl

@[simp] theorem trees_leaf (a : α) (f : Forest α) : (leaf a f).trees = f.trees := rfl

@[simp] theorem trees_node (k : NodeKind) (c f : Forest α) :
    (node k c f).trees = (k, c) :: f.trees := rfl

@[simp] theorem trees_append (f g : Forest α) : (f ++ g).trees = f.trees ++ g.trees := by
  induction f with
  | nil => rfl
  | leaf a rest ih => simp [ih]
  | node k c rest _ ih => simp [ih]

@[simp] theorem trees_ofLeaves (as : List α) : (ofLeaves as).trees = [] := by
  induction as with
  | nil => rfl
  | cons a as ih => simpa [ofLeaves] using ih

@[simp] theorem nodes_nil : (nil : Forest α).nodes = [] := rfl

@[simp] theorem nodes_leaf (a : α) (f : Forest α) : (leaf a f).nodes = f.nodes := rfl

@[simp] theorem nodes_node (k : NodeKind) (c f : Forest α) :
    (node k c f).nodes = (k, c) :: (c.nodes ++ f.nodes) := rfl

@[simp] theorem nodes_append (f g : Forest α) : (f ++ g).nodes = f.nodes ++ g.nodes := by
  induction f with
  | nil => rfl
  | leaf a rest ih => simp [ih]
  | node k c rest _ ih => simp [ih]

@[simp] theorem nodes_ofLeaves (as : List α) : (ofLeaves as).nodes = [] := by
  induction as with
  | nil => rfl
  | cons a as ih => simpa [ofLeaves] using ih

@[simp] theorem ownLeaves_append (f g : Forest α) :
    (f ++ g).ownLeaves = f.ownLeaves ++ g.ownLeaves := by
  induction f with
  | nil => rfl
  | leaf a rest ih => simp [ownLeaves, ih]
  | node k c rest _ ih => simpa [ownLeaves] using ih

@[simp] theorem ownLeaves_ofLeaves (as : List α) : (ofLeaves as).ownLeaves = as := by
  induction as with
  | nil => rfl
  | cons a as ih => simp [ofLeaves, ownLeaves, ih]

@[simp] theorem firstLeaf?_append (f g : Forest α) :
    (f ++ g).firstLeaf? = f.firstLeaf?.or g.firstLeaf? := by
  induction f with
  | nil => rfl
  | leaf a rest _ => rfl
  | node k c rest _ ih => simpa [firstLeaf?] using ih

theorem firstLeaf?_eq_none {f : Forest α} (h : f.ownLeaves = []) :
    f.firstLeaf? = none := by
  induction f with
  | nil => rfl
  | leaf a rest _ => cases h
  | node k c rest _ ih => exact ih h

theorem mem_leaves_of_mem_ownLeaves {f : Forest α} {a : α} (h : a ∈ f.ownLeaves) :
    a ∈ f.leaves := by
  induction f with
  | nil => cases h
  | leaf b rest ih =>
      rcases List.mem_cons.mp h with rfl | h
      · exact List.mem_cons_self
      · exact List.mem_cons_of_mem b (ih h)
  | node k c rest _ ih => exact List.mem_append_right _ (ih h)

/-! ### Trivia aside -/

/-- The row of the leaves that pass a test, under other labels. -/
def significantPart (p : α → Bool) (g : α → β) (f : Forest α) : Forest β :=
  (f.filter p).map g

variable {p : α → Bool} {g : α → β}

theorem mem_trees_significantPart {f : Forest α} {n : NodeKind × Forest α} (h : n ∈ f.trees) :
    (n.1, n.2.significantPart p g) ∈ (f.significantPart p g).trees := by
  induction f with
  | nil => simp at h
  | leaf a rest ih =>
      simp only [significantPart, filter]
      split
      · exact ih h
      · exact ih h
  | node k c rest _ ih =>
      rcases List.mem_cons.mp h with rfl | h
      · exact List.mem_cons_self
      · exact List.mem_cons_of_mem _ (ih h)

theorem trees_significantPart (f : Forest α) :
    (f.significantPart p g).trees = f.trees.map fun n => (n.1, n.2.significantPart p g) := by
  induction f with
  | nil => rfl
  | leaf a rest ih =>
      simp only [significantPart, filter, trees_leaf]
      split
      · exact ih
      · exact ih
  | node k c rest _ ih => exact congrArg (_ :: ·) ih

theorem mem_nodes_of_mem_trees {f : Forest α} {n : NodeKind × Forest α} (h : n ∈ f.trees) :
    n ∈ f.nodes := by
  induction f with
  | nil => cases h
  | leaf a rest ih => exact ih h
  | node k c rest _ ih =>
      rcases List.mem_cons.mp h with rfl | h
      · exact List.mem_cons_self
      · exact List.mem_cons_of_mem _ (List.mem_append_right _ (ih h))

/-- What is in a node of the row is in the row. -/
theorem mem_leaves_of_mem_nodes {f : Forest α} {n : NodeKind × Forest α} (h : n ∈ f.nodes) {a : α}
    (ha : a ∈ n.2.leaves) : a ∈ f.leaves := by
  induction f with
  | nil => cases h
  | leaf b rest ih => exact List.mem_cons_of_mem b (ih h)
  | node k c rest ihc ih =>
      rw [leaves_node, List.mem_append]
      rcases List.mem_cons.mp h with rfl | h
      · exact Or.inl ha
      · exact (List.mem_append.mp h).imp ihc ih

theorem mem_nodes_significantPart {f : Forest α} {n : NodeKind × Forest α} (h : n ∈ f.nodes) :
    (n.1, n.2.significantPart p g) ∈ (f.significantPart p g).nodes := by
  induction f with
  | nil => simp at h
  | leaf a rest ih =>
      simp only [significantPart, filter]
      split
      · exact ih h
      · exact ih h
  | node k c rest ihc ih =>
      rcases List.mem_cons.mp h with rfl | h
      · exact List.mem_cons_self
      · refine List.mem_cons_of_mem _ (List.mem_append.mpr ?_)
        rcases List.mem_append.mp h with h | h
        · exact Or.inl (ihc h)
        · exact Or.inr (ih h)

theorem ownLeaves_significantPart (f : Forest α) :
    (f.significantPart p g).ownLeaves = (f.ownLeaves.filter p).map g := by
  induction f with
  | nil => rfl
  | leaf a rest ih =>
      simp only [significantPart, filter, ownLeaves, List.filter_cons]
      split
      · simpa [ownLeaves, significantPart] using ih
      · exact ih
  | node k c rest _ ih => exact ih

/-- A leaf of the significant part, and where it stands in the whole row. -/
theorem split_significantPart {f : Forest α} {before after : Forest β} {b : β}
    (h : f.significantPart p g = before ++ .leaf b after) (hbefore : before.firstLeaf? = none) :
    ∃ f₁ a f₂, f = f₁ ++ .leaf a f₂ ∧ p a ∧ g a = b ∧ f₁.significantPart p g = before ∧
      f₂.significantPart p g = after := by
  induction f generalizing before with
  | nil =>
      cases before <;> simp [significantPart, filter] at h
  | leaf a rest ih =>
      simp only [significantPart, filter] at h
      split at h
      · rename_i ha
        -- Nothing of `before` can stand here but the leaf itself.
        cases before with
        | nil =>
            simp only [map_leaf, nil_append, leaf.injEq] at h
            exact ⟨.nil, a, rest, rfl, ha, h.1, rfl, h.2⟩
        | leaf c before => simp [firstLeaf?] at hbefore
        | node k c before => simp at h
      · rename_i ha
        obtain ⟨f₁, a', f₂, rfl, ha', hb, hf₁, hf₂⟩ := ih h hbefore
        refine ⟨.leaf a f₁, a', f₂, rfl, ha', hb, ?_, hf₂⟩
        simpa [significantPart, filter, ha] using hf₁
  | node k c rest _ ih =>
      cases before with
      | nil => simp [significantPart, filter] at h
      | leaf d before => simp [significantPart, filter] at h
      | node k' c' before =>
          simp only [significantPart, filter, map_node, node_append, node.injEq] at h
          obtain ⟨rfl, rfl, h⟩ := h
          obtain ⟨f₁, a, f₂, rfl, ha, hb, rfl, hf₂⟩ := ih h hbefore
          exact ⟨.node k c f₁, a, f₂, rfl, ha, hb, rfl, hf₂⟩

theorem firstLeaf?_map (g : α → β) (f : Forest α) : (f.map g).firstLeaf? = f.firstLeaf?.map g := by
  induction f with
  | nil => rfl
  | leaf a rest _ => rfl
  | node k c rest _ ih => simpa [firstLeaf?] using ih

end Forest

/-! ### Nodes in their places -/

section Places

variable {f : Forest Token} {n : Node} {t : Token} {start : Nat} {before after : List Neighbour}

theorem Element.ofForest_append (f g : Forest Token) (start : Nat) (before after : List Neighbour) :
    ∃ start' before' after', Element.ofForest start before after (f ++ g) =
      Element.ofForest start before after f ++ Element.ofForest start' before' after' g := by
  induction f generalizing start before after with
  | nil => exact ⟨start, before, after, rfl⟩
  | leaf t rest ih =>
      obtain ⟨start', before', after', h⟩ :=
        ih (start + byteLength t.chars) (some t :: before) after.tail
      exact ⟨start', before', after', by simp [Element.ofForest, h]⟩
  | node k c rest _ ih =>
      obtain ⟨start', before', after', h⟩ := ih (start + c.size) (none :: before) after.tail
      exact ⟨start', before', after', by simp [Element.ofForest, h]⟩

theorem Element.mem_trees (h : .node n ∈ Element.ofForest start before after f) :
    (n.kind, n.children) ∈ f.trees := by
  induction f generalizing start before after with
  | nil => simp [Element.ofForest] at h
  | leaf t rest ih =>
      simp only [Element.ofForest, List.mem_cons, reduceCtorEq, false_or] at h
      exact ih h
  | node k c rest _ ih =>
      simp only [Element.ofForest, List.mem_cons, Element.node.injEq] at h
      rcases h with rfl | h
      · exact List.mem_cons_self
      · exact List.mem_cons_of_mem _ (ih h)

/-- The nodes of a row, in their places and in order, are its trees. -/
theorem Element.map_trees (f : Forest Token) (start : Nat) (before after : List Neighbour) :
    ((Element.ofForest start before after f).filterMap Element.node?).map
      (fun n => (n.kind, n.children)) = f.trees := by
  induction f generalizing start before after with
  | nil => rfl
  | leaf t rest ih => exact ih _ _ _
  | node k c rest _ ih => exact congrArg (_ :: ·) (ih _ _ _)

theorem Element.mem_ofForest (h : .node n ∈ Element.ofForest start before after f) :
    n ∈ Node.ofForest start before after f := by
  induction f generalizing start before after with
  | nil => cases h
  | leaf t rest ih =>
      rcases List.mem_cons.mp h with h | h
      · cases h
      · exact ih h
  | node k c rest _ ih =>
      rcases List.mem_cons.mp h with h | h
      · cases h
        exact List.mem_cons_self
      · exact List.mem_cons_of_mem _ (List.mem_append_right _ (ih h))

theorem Element.token_mem (h : .token t ∈ Element.ofForest start before after f) :
    t ∈ f.ownLeaves := by
  induction f generalizing start before after with
  | nil => simp [Element.ofForest] at h
  | leaf u rest ih =>
      simp only [Element.ofForest, List.mem_cons, Element.token.injEq] at h
      exact List.mem_cons.mpr (h.imp_right ih)
  | node k c rest _ ih =>
      simp only [Element.ofForest, List.mem_cons, reduceCtorEq, false_or] at h
      exact ih h

theorem Node.mem_nodes (h : n ∈ Node.ofForest start before after f) :
    (n.kind, n.children) ∈ f.nodes := by
  induction f generalizing start before after with
  | nil => simp [Node.ofForest] at h
  | leaf t rest ih => exact ih h
  | node k c rest ihc ih =>
      simp only [Node.ofForest, List.mem_cons, List.mem_append] at h
      rcases h with rfl | h | h
      · exact List.mem_cons_self
      · exact List.mem_cons_of_mem _ (List.mem_append_left _ (ihc h))
      · exact List.mem_cons_of_mem _ (List.mem_append_right _ (ih h))

/-- The first token of a node that is no trivia is the first leaf of the node without its trivia. -/
theorem Node.firstToken?_eq (n : Node) :
    n.firstToken? = (n.children.filter fun t => !t.isTrivia).firstLeaf? := by
  have hrow (f : Forest Token) (start : Nat) (before after : List Neighbour) :
      ((Element.ofForest start before after f).filterMap Element.token?).find?
        (fun t => !t.isTrivia) = (f.filter fun t => !t.isTrivia).firstLeaf? := by
    induction f generalizing start before after with
    | nil => rfl
    | leaf t rest ih =>
        cases htrivia : t.isTrivia with
        | true => simpa [Element.ofForest, Element.token?, Forest.filter, htrivia] using ih _ _ _
        | false =>
            simp [Element.ofForest, Element.token?, Forest.filter, htrivia, Forest.firstLeaf?]
    | node k c rest _ ih =>
        simpa [Element.ofForest, Element.token?, Forest.filter, Forest.firstLeaf?] using ih _ _ _
  exact hrow _ _ _ _

end Places

end StructuredText
