import StructuredText.Parse
import StructuredText.Proofs.Descent.Declarations
import StructuredText.Proofs.Tree.Tight

/-!
What the parser makes of a text, said with the rules of the grammar; and that the tree loses nothing of its
text. The outline of a text has one leaf for each significant token, of the kind of that token, and so the
tokens of the tree are the tokens of the text.
-/

namespace StructuredText.Parse

/-- What the grammar sees of a text. -/
def symbols (source : List Char) : Ahead :=
  (significant (Token.lex source)).map Symbol.ofToken

/-- The outline of a text. -/
def outline (source : List Char) : Outline :=
  (Grammar.parse (symbols source)).written

/-- The tree has the outline that the grammar gives the symbols of the text. -/
theorem children_ofText (source : List Char) :
    (ofText source).children = (outline source).fill (Token.lex source) :=
  congrArg (Outline.fill · (Token.lex source)) (Descent.mirrors_ofTokens source).written

/-- What is wrong with a text are its error tokens, and the faults that the grammar finds in its symbols. -/
theorem diagnostics_ofText (source : List Char) : (ofText source).diagnostics =
    diagnose (Token.lex source) (byteLength source) (Grammar.parse (symbols source)).faults := by
  change arrange _ (Descent.ofTokens (Token.lex source) (byteLength source)).errors.reverse = _
  rw [(Descent.mirrors_ofTokens source).errors, ← List.map_reverse]
  rfl

theorem symbols_kind_ne_eof {source : List Char} {x : Symbol} (h : x ∈ symbols source) :
    x.kind ≠ .eof := by
  obtain ⟨t, ht, rfl⟩ := List.mem_map.mp h
  exact Token.kind_ne_eof_of_mem_lexFrom (List.mem_filter.mp ht).1

theorem leaves_outline (source : List Char) :
    (outline source).leaves = (significant (Token.lex source)).map Token.kind := by
  rw [outline, Grammar.parse_leaves fun _ => symbols_kind_ne_eof, symbols, List.map_map]
  rfl

/-- The tokens of the tree are those of the text. -/
theorem leaves_ofText (source : List Char) : (ofText source).children.leaves = Token.lex source := by
  rw [children_ofText]
  exact Outline.leaves_fill (leaves_outline source)

/-- Below the root, trivia stands in a node only between other tokens of it. -/
theorem tight_of_mem_nodes {source : List Char} {n : NodeKind × Forest Token}
    (hn : n ∈ (ofText source).children.nodes) : Token.Tight n.2.leaves := by
  rw [children_ofText] at hn
  exact Outline.tight_of_mem_fill (leaves_outline source) hn

/-- The tree without its trivia, with what the grammar sees of each token. -/
def skeleton (p : Parse) : Forest Symbol :=
  (p.children.filter fun t => !t.isTrivia).map Symbol.ofToken

theorem kinds_skeleton (p : Parse) : p.skeleton.kinds = p.children.kinds := by
  simp [skeleton]

theorem map_skeleton (source : List Char) :
    (ofText source).skeleton.map Symbol.kind = outline source := by
  rw [skeleton, Forest.map_map, children_ofText]
  exact Outline.shape_fill (leaves_outline source)

theorem leaves_skeleton (source : List Char) :
    (ofText source).skeleton.leaves = symbols source := by
  rw [skeleton, Forest.leaves_map, Forest.leaves_filter, leaves_ofText]
  rfl

/-- A tree over the symbols of a text with the outline of that text is the tree of it. -/
theorem skeleton_eq {source : List Char} {f : Forest Symbol}
    (houtline : outline source = f.map Symbol.kind) (hleaves : f.leaves = symbols source) :
    (ofText source).skeleton = f :=
  Forest.eq_of_map_eq Symbol.kind ((map_skeleton source).trans houtline)
    ((leaves_skeleton source).trans hleaves.symm)

/-- The tree of any text is lossless: its leaves are the tokens of the text, each once and in order,
with kind, characters and place. So the characters of the leaves are the text, each leaf lies where
the characters of the leaves before it end, the kinds that the grammar wrote down are those of the
significant tokens, and after the last of them only trivia is left for the root. -/
theorem tree_lossless (source : List Char) :
    (ofText source).children.leaves = Token.lex source ∧
    (ofText source).children.leaves.flatMap Token.chars = source ∧
    (∀ before t after, (ofText source).children.leaves = before ++ t :: after →
      t.span = ⟨byteLength (before.flatMap Token.chars),
        byteLength (before.flatMap Token.chars) + byteLength t.chars⟩) ∧
    (outline source).leaves = (significant (Token.lex source)).map Token.kind ∧
    ∀ t ∈ ((outline source).weave (Token.lex source)).2, t.isTrivia := by
  have hkinds := leaves_outline source
  have hleaves := leaves_ofText source
  refine ⟨hleaves, ?_, ?_, hkinds, fun t => Outline.isTrivia_of_mem_weave hkinds⟩
  · rw [hleaves]
    exact Token.chars_lexFrom 0 source
  · intro before t after hsplit
    rw [hleaves] at hsplit
    have hstart := Token.start_lexFrom hsplit
    rw [Nat.zero_add] at hstart
    simp only [Token.span, Token.stop, hstart]

end StructuredText.Parse
