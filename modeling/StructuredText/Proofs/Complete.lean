import StructuredText.Proofs.Grammar.CompleteDeclarations
import StructuredText.Proofs.Sound

/-!
A text that has a derivation is accepted, and its tree is that derivation. A derivation is a tree
over the symbols of the text, so together with soundness the trees of the grammar are the trees of
the accepted texts.
-/

namespace StructuredText.Parse

open StructuredText.Derivation (Derives)

theorem symbols_kind_ne_pragma {source : List Char}
    (h : ∀ t ∈ Token.lex source, t.kind ≠ .pragma) : ∀ x ∈ symbols source, x.kind ≠ .pragma := by
  intro x hx
  obtain ⟨t, ht, rfl⟩ := List.mem_map.mp hx
  exact h t (List.mem_filter.mp ht).1

/-- Where the symbols of a text without pragmas and error tokens are those of a derivation in which
at most `nestingLimit` entries are open at a time, the text is accepted and its tree, trivia aside,
is that derivation, in which a unit has a block exactly if there is something in its body. -/
theorem tree_of_derivation {source : List Char} {f : Forest Symbol}
    (hpragma : ∀ t ∈ Token.lex source, t.kind ≠ .pragma)
    (herror : ∀ t ∈ Token.lex source, t.kind ≠ .error)
    (hf : Derivation.file (Derives nestingLimit) f) (hleaves : f.leaves = symbols source) :
    (ofText source).ok ∧ (ofText source).skeleton = f.withoutEmptyBodies := by
  have hsymbols : f.withoutEmptyBodies.leaves = symbols source := by
    rw [Forest.leaves_withoutEmptyBodies, hleaves]
  have hreads := Grammar.sourceFile_reads (entriesRead nestingLimit) hf .nil
  rw [hsymbols, List.append_nil, Forest.nil_append] at hreads
  obtain ⟨-, hwritten, hfaults⟩ :=
    hreads (ParserState.start (symbols source)) rfl rfl (symbols_kind_ne_pragma hpragma)
  exact ⟨(ok_iff source).mpr ⟨herror, hfaults⟩, skeleton_eq hwritten hsymbols⟩

theorem tree_of_derivation_sum :
    let source := "x := 1 + y; // a sum".toList
    let sum : Forest Symbol := .node .binaryOperator (.node .integerLiteral
      (.leaf ⟨.intLiteral, false⟩ .nil) (.leaf ⟨.plus, false⟩ (.node .identifier
        (.leaf ⟨.ident, false⟩ .nil) .nil))) .nil
    let tree : Forest Symbol := .node .block (.node .assignment (.node .identifier
      (.leaf ⟨.ident, false⟩ .nil) (.leaf ⟨.assign, false⟩ sum)) (.leaf ⟨.semicolon, false⟩ .nil))
      .nil
    (ofText source).ok ∧ (ofText source).skeleton = tree := by
  intro source sum tree
  have hone : Derivation.operand (Derives 254)
      (.node .integerLiteral (.leaf ⟨.intLiteral, false⟩ .nil) .nil) :=
    ⟨Shape.tree .integerLiteral (Shape.token .intLiteral), by simp, _, ⟨_, rfl, rfl⟩, rfl⟩
  have hname : Derivation.name (.node .identifier (.leaf ⟨.ident, false⟩ .nil) .nil) :=
    ⟨Derivation.identifier, by simp, _, ⟨_, rfl, rfl⟩, rfl⟩
  have hy : Derives 254 (.expression 21) (.node .identifier (.leaf ⟨.ident, false⟩ .nil) .nil) :=
    .operand ⟨Derivation.operand (Derives 253), by simp, Derivation.name, by simp, hname⟩
  have hsum : Derives 255 (.expression 0) sum :=
    .join (x := ⟨.plus, false⟩) (b := ⟨20, false⟩) rfl (Nat.zero_le 20)
      (.operand ⟨Derivation.operand (Derives 254), by simp, hone⟩) hy
  have hstatement : Derives 256 .statement (.node .assignment (.node .identifier
      (.leaf ⟨.ident, false⟩ .nil) (.leaf ⟨.assign, false⟩ sum)) .nil) :=
    ⟨_, List.mem_cons_self, _, ⟨_, _, hname, ⟨_, _, ⟨_, rfl, rfl⟩, hsum, rfl⟩, rfl⟩, rfl⟩
  have hitem : Derivation.item (Derives 256) _ :=
    ⟨_, List.mem_cons_of_mem _ List.mem_cons_self, _, _, hstatement,
      (⟨⟨.semicolon, false⟩, rfl, rfl⟩ : Shape.token .semicolon _), rfl⟩
  have hfile : Derivation.file (Derives nestingLimit) tree :=
    ⟨_, List.mem_cons_of_mem _ List.mem_cons_self, _, .cons hitem .nil, rfl⟩
  exact tree_of_derivation (by decide +kernel) (by decide +kernel) hfile (by decide +kernel)

end StructuredText.Parse
