import StructuredText.Proofs.Lossless

/-!
Where the nodes of a tree lie. Below the root, a node reaches from its first significant token to its
last one, so that no trivia stands at its ends; a node without significant tokens has no trivia
either, and is empty.
-/

namespace StructuredText.Parse

/-- In the tree of any text, a node below the root either has no token at all, or lies from the start
of its first significant token to the end of its last one. -/
theorem spans_tight (source : List Char) {n : Node}
    (hn : n ∈ (ofText source).root.selfAndBelow.tail) :
    (significant n.allTokens = [] ∧ n.allTokens = [] ∧ n.start = n.stop) ∨
      ∃ first last, (significant n.allTokens).head? = some first ∧
        (significant n.allTokens).getLast? = some last ∧ n.span = ⟨first.start, last.stop⟩ := by
  have htiles : Token.Tiles 0 (ofText source).children.leaves := by
    rw [leaves_ofText]
    exact Token.tiles_lexFrom 0 source
  have hplace : Token.Tiles n.start n.allTokens := Node.tiles_leaves htiles hn
  have htight : Token.Tight n.allTokens := tight_of_mem_nodes (Node.mem_nodes hn)
  have hstop : n.stop = n.start + Token.bytes n.allTokens := by
    rw [Node.stop, Node.size_eq_bytes]
    rfl
  rw [htight.head?_significant, htight.getLast?_significant]
  cases htokens : n.allTokens with
  | nil => exact Or.inl ⟨rfl, rfl, by simp [hstop, htokens]⟩
  | cons first rest =>
      have hlast : n.allTokens.getLast? = some (rest.getLast?.getD first) := by
        rw [htokens, List.getLast?_cons]
      refine Or.inr ⟨first, rest.getLast?.getD first, rfl, htokens ▸ hlast, ?_⟩
      rw [Node.span, hplace.stop_getLast? hlast, ← hstop]
      rw [htokens] at hplace
      rw [hplace.1]

/-- A node of a text with comments around its tokens and an operand that is missing. -/
theorem spans_tight_comments :
    let source := "(* a *) x := 1 + (* b *) ; // c".toList
    ∃ n ∈ (ofText source).root.selfAndBelow.tail, n.kind = .assignment ∧
      ((significant n.allTokens = [] ∧ n.allTokens = [] ∧ n.start = n.stop) ∨
        ∃ first last, (significant n.allTokens).head? = some first ∧
          (significant n.allTokens).getLast? = some last ∧ n.span = ⟨first.start, last.stop⟩) := by
  intro source
  have hany : (ofText source).root.selfAndBelow.tail.any fun n => n.kind = .assignment := by
    decide +kernel
  obtain ⟨n, hn, hkind⟩ := List.any_eq_true.mp hany
  exact ⟨n, hn, by simpa using hkind, spans_tight source hn⟩

end StructuredText.Parse
