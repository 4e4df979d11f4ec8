import StructuredText.Proofs.Declarations
import StructuredText.Proofs.Grammar.Nesting

/-!
How deep a tree is. The limit on nesting is one on the levels that the parser goes down, and for the left
operand of an operation it does not go down. So on any way from the root to a token there are no more
operations than levels, if those are left aside that are the left operand of the one before; with them
there may be any number, and nothing is reported.
-/

namespace StructuredText

/-! ### Ways down a tree -/

namespace Node

/-- The nodes on a way down from a node, which the numbers of the children tell; it ends where there is no
such child. -/
def descent : Node → List Nat → List Node
  | _, [] => []
  | n, i :: numbers =>
    match n.childNodes[i]? with
    | some m => m :: m.descent numbers
    | none => []

/-- Whether a child of a node is the left operand of an operation: it starts where the operation does. -/
def isLeftOperand (n m : Node) : Bool :=
  n.kind.isInfix && m.start = n.start

/-- The number of operations on a way down from a node, without those that are the left operand of the one
before. -/
def operations : Node → List Node → Nat
  | _, [] => 0
  | n, m :: way => (if m.kind.isInfix && !n.isLeftOperand m then 1 else 0) + m.operations way

end Node

/-- Where a node stands in its row. -/
theorem Element.split_of_mem {f : Forest Token} {m : Node} {start : Nat} {before after : List Neighbour}
    (h : .node m ∈ Element.ofForest start before after f) :
    ∃ g rest, f = g ++ .node m.kind m.children rest ∧ m.start = start + g.size := by
  induction f generalizing start before after with
  | nil => cases h
  | leaf t f ih =>
      rcases List.mem_cons.mp h with h | h
      · cases h
      · obtain ⟨g, rest, rfl, hstart⟩ := ih h
        exact ⟨.leaf t g, rest, rfl, by rw [hstart, Forest.size, Nat.add_assoc]⟩
  | node k c f _ ih =>
      rcases List.mem_cons.mp h with h | h
      · cases h
        exact ⟨.nil, f, rfl, rfl⟩
      · obtain ⟨g, rest, rfl, hstart⟩ := ih h
        exact ⟨.node k c g, rest, rfl, by rw [hstart, Forest.size, Nat.add_assoc]⟩

namespace Forest

theorem mem_nodes_trans {α : Type} {f : Forest α} {n m : NodeKind × Forest α} (hn : n ∈ f.nodes)
    (hm : m ∈ n.2.nodes) : m ∈ f.nodes := by
  induction f with
  | nil => cases hn
  | leaf a rest ih => exact ih hn
  | node k c rest ihc ih =>
      refine List.mem_cons_of_mem _ (List.mem_append.mpr ?_)
      rcases List.mem_cons.mp hn with rfl | hn
      · exact Or.inl hm
      · exact (List.mem_append.mp hn).imp ihc ih

end Forest

namespace Node

variable {n m : Node}

/-- The node, if it is an operation, and all nodes below it begin with no trivia. -/
structure Trimmed (n : Node) : Prop where
  self : n.kind.isInfix → Token.Tight n.allTokens
  below : ∀ x ∈ n.children.nodes, Token.Tight x.2.leaves

theorem Trimmed.child (h : n.Trimmed) (hm : m ∈ n.childNodes) : m.Trimmed := by
  have hnode : (m.kind, m.children) ∈ n.children.nodes :=
    Forest.mem_nodes_of_mem_trees (Element.mem_trees (mem_childNodes.mp hm))
  exact ⟨fun _ => h.below _ hnode, fun x hx => h.below x (Forest.mem_nodes_trans hnode hx)⟩

/-- What stands before the first tree of an operation is nothing, not even trivia. -/
theorem eq_nil_of_trimmed {g rest : Forest Token} (hchildren : n.children = g ++ rest)
    (htight : Token.Tight n.allTokens)
    (hg : g.significantPart (fun t => !t.isTrivia) Token.kind = .nil) : g = .nil := by
  cases g with
  | nil => rfl
  | leaf t g =>
      have ht : t.isTrivia = false := htight.head t (by simp [allTokens, hchildren])
      simp [Forest.significantPart, Forest.filter, ht] at hg
  | node k c g => simp [Forest.significantPart, Forest.filter] at hg

/-- One step down: what is counted at a child and below it is counted at the node. -/
theorem depth_child_le (h : n.Trimmed) (hm : m ∈ n.childNodes) :
    (if m.kind.isInfix && !n.isLeftOperand m then 1 else 0) + m.outline.depth m.kind.isInfix ≤
      n.outline.depth n.kind.isInfix := by
  obtain ⟨g, rest, hchildren, hstart⟩ := Element.split_of_mem (mem_childNodes.mp hm)
  let front := g.significantPart (fun t => !t.isTrivia) Token.kind
  let back := rest.significantPart (fun t => !t.isTrivia) Token.kind
  have houtline : n.outline = front ++ .node m.kind m.outline back := by
    simp only [outline, hchildren, Forest.significantPart, Forest.filter_append, Forest.map_append,
      Forest.filter, Forest.map_node, front, back]
  rw [houtline]
  by_cases hfront : front = .nil
  · have hleft : n.kind.isInfix → n.isLeftOperand m := by
      intro hkind
      have hg : g = .nil := eq_nil_of_trimmed hchildren (h.self hkind) hfront
      simp [isLeftOperand, hkind, hstart, hg, Forest.size]
    have hcount : (if m.kind.isInfix && !n.isLeftOperand m then 1 else 0) ≤
        if m.kind.isInfix && !n.kind.isInfix then 1 else 0 := by
      cases hkind : n.kind.isInfix with
      | false => simp [isLeftOperand, hkind]
      | true => simp [hleft hkind]
    rw [hfront, Forest.nil_append, Outline.depth]
    omega
  · refine Nat.le_trans ?_ (Outline.le_depth_append_of_ne_nil hfront _ _)
    have hcount : (if m.kind.isInfix && !n.isLeftOperand m then 1 else 0) ≤
        if m.kind.isInfix && !false then 1 else 0 := by
      cases n.isLeftOperand m <;> simp
    rw [Outline.depth]
    omega

theorem operations_le (h : n.Trimmed) (numbers : List Nat) :
    n.operations (n.descent numbers) ≤ n.outline.depth n.kind.isInfix := by
  induction numbers generalizing n with
  | nil => exact Nat.zero_le _
  | cons i numbers ih =>
      rw [descent]
      split
      · rename_i m hm
        have hm := List.mem_of_getElem? hm
        have hstep := depth_child_le h hm
        have hbelow := ih (h.child hm)
        rw [operations]
        omega
      · exact Nat.zero_le _

end Node

namespace Parse

theorem trimmed_root (source : List Char) : (ofText source).root.Trimmed :=
  ⟨nofun, fun _ hx => tight_of_mem_nodes hx⟩

/-- On any way down the tree of any text there are at most as many operations as the limit says, if those
are not counted that are the left operand of the operation before them. -/
theorem nesting_bounded (source : List Char) (numbers : List Nat) :
    (ofText source).root.operations ((ofText source).root.descent numbers) ≤ nestingLimit := by
  refine Nat.le_trans (Node.operations_le (trimmed_root source) numbers) ?_
  rw [outline_root]
  exact (Grammar.bounded_parse (symbols source)).depth_le _

/-- All operations on a way are not so few: those of a sum are each the left operand of the next, and none
of them is reported. -/
theorem nesting_unbounded :
    ¬∀ (source : List Char) (numbers : List Nat),
      (∀ d ∈ (ofText source).diagnostics, d.message ≠ Problem.nestingTooDeep.message) →
        ((ofText source).root.descent numbers).countP (fun n => n.kind.isInfix) ≤ nestingLimit := by
  intro h
  let source := "x := 1".toList ++ (List.replicate 257 " + 1".toList).flatten ++ [';']
  let numbers := 0 :: 0 :: 1 :: List.replicate 256 0
  have hdeep : (ofText source).diagnostics = [] ∧ nestingLimit <
      ((ofText source).root.descent numbers).countP fun n => n.kind.isInfix := by
    decide +kernel
  have hle := h source numbers (by simp [hdeep.1])
  omega

end Parse

end StructuredText
