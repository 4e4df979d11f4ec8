import StructuredText.Proofs.Token.Significant
import StructuredText.Proofs.Tree.Forest
import StructuredText.Tree.Weave

/-!
Weaving the tokens of a text into an outline. If the leaves of the outline are the kinds of the
significant tokens, then every token gets its place in the tree, once and in order; a token keeps
its kind; only trivia is left over; and the tree without its trivia has the shape of the outline.
-/

namespace StructuredText

open Parse

/-! ### Trivia in a row of tokens -/

namespace Parse

theorem filter_ofLeaves_takeWhile (ts : List Token) :
    (Forest.ofLeaves (ts.takeWhile Token.isTrivia)).filter (fun t => !t.isTrivia) = .nil :=
  Forest.filter_ofLeaves_eq_nil fun t ht => by simp [isTrivia_of_mem_takeWhile ht]

end Parse

/-! ### Weaving -/

namespace Outline

/-- What weaving does to tokens whose significant ones begin with the leaves of the outline. -/
structure Woven (outline : Outline) (tokens : List Token) (more : List TokenKind) : Prop where
  leaves : (outline.weave tokens).1.leaves ++ (outline.weave tokens).2 = tokens
  left : (significant (outline.weave tokens).2).map Token.kind = more
  shape : ((outline.weave tokens).1.filter fun t => !t.isTrivia).map Token.kind = outline

theorem woven_leaf {kind : TokenKind} {rest : Outline} {tokens : List Token}
    {more : List TokenKind}
    (h : (significant tokens).map Token.kind = (Forest.leaf kind rest).leaves ++ more)
    (ih : ∀ ts, (significant ts).map Token.kind = rest.leaves ++ more → Woven rest ts more) :
    Woven (.leaf kind rest) tokens more := by
  rw [← significant_dropWhile] at h
  -- The leaf is the kind of a significant token, so there is one behind the trivia.
  cases hdrop : tokens.dropWhile Token.isTrivia with
  | nil => simp [hdrop, significant] at h
  | cons t ts =>
      have ht : t.isTrivia = false := by
        have := List.head?_dropWhile_not Token.isTrivia tokens
        simpa [hdrop] using this
      have hts : significant (t :: ts) = t :: significant ts := by simp [significant, ht]
      rw [hdrop, hts] at h
      simp only [List.map_cons, Forest.leaves_leaf, List.cons_append, List.cons.injEq] at h
      obtain ⟨rfl, h⟩ := h
      obtain ⟨hleaves, hleft, hshape⟩ := ih ts h
      refine ⟨?_, ?_, ?_⟩
      · have hsplit : tokens.takeWhile Token.isTrivia ++ t :: ts = tokens := by
          rw [← hdrop, List.takeWhile_append_dropWhile]
        simpa [weave, hdrop, hleaves] using hsplit
      · simpa [weave, hdrop] using hleft
      · simp [weave, hdrop, filter_ofLeaves_takeWhile, Forest.filter, ht, hshape]

/-- The trivia before a node goes out of it, where there is something in it. -/
theorem woven_node {kind : NodeKind} {children rest : Outline} {tokens : List Token}
    {more : List TokenKind}
    (h : (significant tokens).map Token.kind = (Forest.node kind children rest).leaves ++ more)
    (ihc : ∀ ts more, (significant ts).map Token.kind = children.leaves ++ more →
      Woven children ts more)
    (ih : ∀ ts, (significant ts).map Token.kind = rest.leaves ++ more → Woven rest ts more) :
    Woven (.node kind children rest) tokens more := by
  rw [Forest.leaves_node, List.append_assoc] at h
  cases hbare : children.isBare with
  | true =>
      obtain ⟨hleaves, hleft, hshape⟩ := ihc tokens _ h
      obtain ⟨hleaves', hleft', hshape'⟩ := ih _ hleft
      refine ⟨?_, ?_, ?_⟩
      · simp [weave, hbare, Forest.ofLeaves, hleaves', hleaves]
      · simpa [weave, hbare] using hleft'
      · simp [weave, hbare, Forest.ofLeaves, Forest.filter, hshape, hshape']
  | false =>
      rw [← significant_dropWhile] at h
      obtain ⟨hleaves, hleft, hshape⟩ := ihc (tokens.dropWhile Token.isTrivia) _ h
      obtain ⟨hleaves', hleft', hshape'⟩ := ih _ hleft
      refine ⟨?_, ?_, ?_⟩
      · simp [weave, hbare, hleaves', hleaves]
      · simpa [weave, hbare] using hleft'
      · simp [weave, hbare, filter_ofLeaves_takeWhile, Forest.filter, hshape, hshape']

theorem woven (outline : Outline) {tokens : List Token} {more : List TokenKind}
    (h : (significant tokens).map Token.kind = outline.leaves ++ more) :
    Woven outline tokens more := by
  induction outline generalizing tokens more with
  | nil => exact ⟨rfl, h, rfl⟩
  | leaf kind rest ih => exact woven_leaf h fun _ => ih
  | node kind children rest ihc ih => exact woven_node h (fun _ _ => ihc) fun _ => ih

theorem weave_append (f g : Outline) (tokens : List Token) :
    (f ++ g).weave tokens =
      ((f.weave tokens).1 ++ (g.weave (f.weave tokens).2).1, (g.weave (f.weave tokens).2).2) := by
  induction f generalizing tokens with
  | nil => rfl
  | leaf kind rest ih =>
      simp only [Forest.leaf_append, weave]
      split <;> simp [ih]
  | node kind children rest _ ih => simp [weave, ih]

section Fill

variable {outline : Outline} {tokens : List Token}

theorem isTrivia_of_mem_weave (h : outline.leaves = (significant tokens).map Token.kind)
    {t : Token} (ht : t ∈ (outline.weave tokens).2) : t.isTrivia := by
  have hleft := (@woven outline tokens [] (by simp [h])).left
  have hnone := List.filter_eq_nil_iff.mp (List.map_eq_nil_iff.mp hleft) t ht
  simpa using hnone

theorem leaves_fill (h : outline.leaves = (significant tokens).map Token.kind) :
    (outline.fill tokens).leaves = tokens := by
  simpa [fill] using (@woven outline tokens [] (by simp [h])).leaves

theorem shape_fill (h : outline.leaves = (significant tokens).map Token.kind) :
    ((outline.fill tokens).filter fun t => !t.isTrivia).map Token.kind = outline := by
  have hshape := (@woven outline tokens [] (by simp [h])).shape
  have hleft : (Forest.ofLeaves (outline.weave tokens).2).filter (fun t => !t.isTrivia) = .nil :=
    Forest.filter_ofLeaves_eq_nil fun t ht => by simp [isTrivia_of_mem_weave h ht]
  simp [fill, hshape, hleft]

end Fill

end Outline

end StructuredText
