import StructuredText.Proofs.Lossless
import StructuredText.Proofs.Grammar.Operators

/-!
The operators of a text stand in its tree by how they bind. This is so in every tree, of a text with
faults too: the tree has the outline that the grammar has written, and there all nodes are in order.
-/

namespace StructuredText

namespace Binding

variable {b : Binding} {level : Nat}

theorem left_le :
    b.left ≤ level ↔ b.level < level ∨ level = b.level ∧ b.rightAssociative = false := by
  unfold left
  split <;> grind

theorem right_le :
    b.right ≤ level ↔ b.level < level ∨ level = b.level ∧ b.rightAssociative = true := by
  unfold right
  split <;> grind

end Binding

namespace Node

/-- What the grammar has written of a node. -/
def outline (n : Node) : Outline :=
  n.children.significantPart (fun t => !t.isTrivia) Token.kind

/-- How the operator of a node binds. -/
def binding? (n : Node) : Option Binding :=
  n.firstToken?.bind fun t => t.kind.binding?

theorem binding?_outline (n : Node) : Outline.binding? n.outline = n.binding? := by
  rw [Outline.binding?, outline, Forest.significantPart, Forest.firstLeaf?_map, ← firstToken?_eq,
    binding?, Option.bind_map]
  rfl

theorem exists_binding {P : Binding → Prop} {f : Forest Token} {m : Node} {start : Nat}
    {before after : List Neighbour}
    (h : Outline.Operators P (f.significantPart (fun t => !t.isTrivia) Token.kind))
    (hm : .node m ∈ Element.ofForest start before after f) (hkind : m.kind.isInfix) :
    ∃ q, m.binding? = some q ∧ P q := by
  have htree := Forest.mem_trees_significantPart (p := fun t => !t.isTrivia) (g := Token.kind)
    (Element.mem_trees hm)
  rw [← binding?_outline]
  exact h _ htree hkind

end Node

namespace Parse

theorem outline_root (source : List Char) : (ofText source).root.outline = outline source := by
  rw [← map_skeleton, skeleton, Forest.map_map]
  rfl

theorem mem_nodes_outline {source : List Char} {n : Node}
    (hn : n ∈ (ofText source).root.selfAndBelow.tail) :
    (n.kind, n.outline) ∈ (outline source).nodes := by
  rw [← outline_root]
  exact Forest.mem_nodes_significantPart (Node.mem_nodes hn)

theorem inOrder_node (source : List Char) {n : Node} (hn : n ∈ (ofText source).root.selfAndBelow) :
    Outline.InOrder n.kind n.outline := by
  rcases List.mem_cons.mp hn with rfl | hn
  · exact NodeKind.inOrder_of_isPlain rfl _
  · exact Grammar.ordered_parse (symbols source) _ (mem_nodes_outline hn)

/-- In the tree of any text, the operator of an operation is the first token in it. The operation is
of the kind of its operator; an operation before the operator binds tighter, or as tightly if they
group to the left, one after it binds tighter, or as tightly if they group to the right. What has a
sign before it is no operation. -/
theorem operators_bind (source : List Char) {n : Node}
    (hn : n ∈ (ofText source).root.selfAndBelow) :
    (n.kind.isInfix → ∃ before t after p, n.elements = before ++ .token t :: after ∧
      n.firstToken? = some t ∧ t.kind.binding? = some p ∧ n.kind = .ofOperator t.kind ∧
      (∀ m, .node m ∈ before → m.kind.isInfix → ∃ q, m.binding? = some q ∧
        (p.level < q.level ∨ q.level = p.level ∧ p.rightAssociative = false)) ∧
      (∀ m, .node m ∈ after → m.kind.isInfix → ∃ q, m.binding? = some q ∧
        (p.level < q.level ∨ q.level = p.level ∧ p.rightAssociative = true))) ∧
    (n.kind = .unaryExpression → ∀ m, .node m ∈ n.elements → m.kind.isInfix = false) := by
  have horder := inOrder_node source hn
  refine ⟨fun hkind => ?_, fun hkind m hm => ?_⟩
  · obtain ⟨left, k, right, p, hchildren, hfirst, hp, hnode, hleft, hright⟩ := horder.operation hkind
    -- The operator of the outline is a token of the node, with trivia around it.
    obtain ⟨f, t, g, hsplit, ht, rfl, rfl, rfl⟩ := Forest.split_significantPart hchildren hfirst
    obtain ⟨start, before, after, helements⟩ := Element.ofForest_append f (.leaf t g) n.start
      n.before (n.children.neighbours ++ n.after)
    rw [← hsplit] at helements
    have hnone : (f.filter fun t => !t.isTrivia).firstLeaf? = none := by
      simpa [Forest.significantPart, Forest.firstLeaf?_map] using hfirst
    have htoken : n.firstToken? = some t := by
      rw [Node.firstToken?_eq, hsplit, Forest.filter_append, Forest.firstLeaf?_append, hnone]
      simp [Forest.filter, ht, Forest.firstLeaf?]
    refine ⟨_, t, _, p, helements, htoken, hp, hnode, fun m hm hm' => ?_, fun m hm hm' => ?_⟩
    · obtain ⟨q, hq, hle⟩ := Node.exists_binding hleft hm hm'
      exact ⟨q, hq, Binding.left_le.mp hle⟩
    · obtain ⟨q, hq, hle⟩ := Node.exists_binding hright hm hm'
      exact ⟨q, hq, Binding.right_le.mp hle⟩
  · rw [Bool.eq_false_iff]
    intro hm'
    obtain ⟨q, -, hfalse⟩ := Node.exists_binding (horder.sign hkind) hm hm'
    exact hfalse

/-- The operators of a text that ends in the middle of one. -/
theorem operators_bind_unfinished :
    ∃ n ∈ (ofText "x := 1 - -2 - 3 **".toList).root.selfAndBelow, n.kind = .binaryOperator ∧
      ∃ before t after p, n.elements = before ++ .token t :: after ∧
        n.firstToken? = some t ∧ t.kind.binding? = some p ∧ n.kind = .ofOperator t.kind ∧
        (∀ m, .node m ∈ before → m.kind.isInfix → ∃ q, m.binding? = some q ∧
          (p.level < q.level ∨ q.level = p.level ∧ p.rightAssociative = false)) ∧
        (∀ m, .node m ∈ after → m.kind.isInfix → ∃ q, m.binding? = some q ∧
          (p.level < q.level ∨ q.level = p.level ∧ p.rightAssociative = true)) := by
  have hany : (ofText "x := 1 - -2 - 3 **".toList).root.selfAndBelow.any
      (fun n => n.kind = .binaryOperator) := by
    decide +kernel
  obtain ⟨n, hn, hkind⟩ := List.any_eq_true.mp hany
  have hkind : n.kind = .binaryOperator := by simpa using hkind
  exact ⟨n, hn, hkind, (operators_bind _ hn).1 (by rw [hkind]; rfl)⟩

end Parse

end StructuredText
