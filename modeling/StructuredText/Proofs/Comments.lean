import StructuredText.Proofs.Lossless
import StructuredText.Proofs.Tree.Comments

/-!
The comments that belong to a node are found by going from the node to its neighbours and up the tree. They
are those that stand next to the node in the text.
-/

namespace StructuredText.Parse

open Token Node

variable {source : List Char} {n : Node}

theorem sees_node (hn : n ∈ (ofText source).root.selfAndBelow) : Sees (lex source) n := by
  rcases List.mem_cons.mp hn with rfl | hn
  · exact ⟨[], lex source, rfl, rfl, rfl⟩
  · rw [root, children_ofText] at hn
    exact sees_of_mem_fill (leaves_outline source) (Grammar.fronted_parse (symbols source)) hn

/-- The tokens that a node sees behind it follow it in the text. -/
theorem nearby_after_node (hn : n ∈ (ofText source).root.selfAndBelow) :
    ∃ front back, lex source = front ++ back ∧ bytes front = n.stop ∧ nearby n.after <+: back := by
  have hleaves := leaves_ofText source
  rcases List.mem_cons.mp hn with rfl | hn
  · refine ⟨lex source, [], by simp, ?_, List.nil_prefix⟩
    rw [stop_eq, allTokens, root, hleaves]
    simp
  · have hnone : nearby [] <+: [] := List.nil_prefix
    obtain ⟨front, back, htokens, hplace, hafter⟩ := @nearby_after [] [] _ _ _ _ hnone hn
    refine ⟨front, back, ?_, hplace, hafter⟩
    simpa [root, hleaves] using htokens

end StructuredText.Parse
