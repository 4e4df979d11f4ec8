import StructuredText.Proofs.Token.Tiling
import StructuredText.Proofs.Tree.Nodes
import StructuredText.Proofs.Tree.Weave

/-!
Nodes without trivia at their ends. Weaving puts the trivia before a node out of it, and behind the
last significant token of a node nothing more goes into it; so the tokens of every node begin and end
with significant ones, or there are none. In its place, a node lies where its tokens do.
-/

namespace StructuredText

open Parse

/-! ### Tokens without trivia at their ends -/

namespace Token

/-- Neither the first nor the last of the tokens is trivia. -/
structure Tight (ts : List Token) : Prop where
  head : ∀ t ∈ ts.head?, t.isTrivia = false
  last : ∀ t ∈ ts.getLast?, t.isTrivia = false

theorem tight_nil : Tight [] :=
  ⟨by simp, by simp⟩

variable {ts : List Token}

theorem Tight.head?_significant (h : Tight ts) : (significant ts).head? = ts.head? := by
  cases ts with
  | nil => rfl
  | cons t ts => simp [significant, h.head t rfl]

theorem Tight.getLast?_significant (h : Tight ts) : (significant ts).getLast? = ts.getLast? := by
  rcases List.eq_nil_or_concat ts with rfl | ⟨us, t, rfl⟩
  · rfl
  · have ht : t.isTrivia = false := h.last t (by simp)
    simp [significant, ht]

end Token

/-! ### Weaving -/

namespace Outline

open Token

variable {outline : Outline} {tokens : List Token} {more : List TokenKind}

/-- An outline without leaves takes no token. -/
theorem weave_of_isBare (h : outline.isBare) (tokens : List Token) :
    (outline.weave tokens).1.leaves = [] ∧ (outline.weave tokens).2 = tokens := by
  induction outline generalizing tokens with
  | nil => exact ⟨rfl, rfl⟩
  | leaf k rest _ => simp [Forest.isBare] at h
  | node k c rest ihc ih =>
      simp only [Forest.isBare, Bool.and_eq_true] at h
      obtain ⟨hc, hctokens⟩ := ihc h.1 tokens
      obtain ⟨hrest, hrtokens⟩ := ih h.2 tokens
      simp [weave, h.1, Forest.ofLeaves, hc, hctokens, hrest, hrtokens]

/-- Where a significant token is still to come, it stands behind the trivia. -/
theorem dropWhile_of_significant {kind : TokenKind} {kinds : List TokenKind}
    (h : (significant tokens).map Token.kind = kind :: kinds) :
    ∃ t ts, tokens.dropWhile Token.isTrivia = t :: ts ∧ t.isTrivia = false ∧ t.kind = kind ∧
      (significant ts).map Token.kind = kinds := by
  rw [← significant_dropWhile] at h
  cases hdrop : tokens.dropWhile Token.isTrivia with
  | nil => simp [hdrop, significant] at h
  | cons t ts =>
      have ht : t.isTrivia = false := by
        have := List.head?_dropWhile_not Token.isTrivia tokens
        simpa [hdrop] using this
      have hts : significant (t :: ts) = t :: significant ts := by simp [significant, ht]
      rw [hdrop, hts, List.map_cons, List.cons.injEq] at h
      exact ⟨t, ts, rfl, ht, h⟩

/-- The leaves of the outline have their tokens among those woven into it. -/
theorem significant_leaves_weave
    (h : (significant tokens).map Token.kind = outline.leaves ++ more) :
    (significant (outline.weave tokens).1.leaves).map Token.kind = outline.leaves := by
  have hshape := congrArg Forest.leaves (woven outline h).shape
  rwa [Forest.leaves_map, Forest.leaves_filter] at hshape

theorem leaves_weave_ne_nil (h : (significant tokens).map Token.kind = outline.leaves ++ more)
    (hbare : outline.isBare = false) : (outline.weave tokens).1.leaves ≠ [] := by
  intro hnil
  have hleaves := significant_leaves_weave h
  rw [hnil] at hleaves
  exact Bool.eq_false_iff.mp hbare (Forest.isBare_iff.mpr hleaves.symm)

/-- Of tokens that begin with no trivia, the first goes into an outline that has leaves. -/
theorem head?_leaves_weave
    (h : (significant (tokens.dropWhile Token.isTrivia)).map Token.kind = outline.leaves ++ more)
    (hbare : outline.isBare = false) :
    ∀ t ∈ (outline.weave (tokens.dropWhile Token.isTrivia)).1.leaves.head?,
      t.isTrivia = false := by
  intro t ht
  have hsplit := (woven outline h).leaves
  obtain ⟨u, us, hleaves⟩ := List.exists_cons_of_ne_nil (leaves_weave_ne_nil h hbare)
  obtain rfl : u = t := by simpa [hleaves] using ht
  have hhead : (tokens.dropWhile Token.isTrivia).head? = some u := by
    rw [← hsplit, hleaves]
    rfl
  have hfirst := List.head?_dropWhile_not Token.isTrivia tokens
  simpa [hhead] using hfirst

theorem last_append {ts us : List Token} (hts : us = [] → ∀ t ∈ ts.getLast?, t.isTrivia = false)
    (hus : ∀ t ∈ us.getLast?, t.isTrivia = false) :
    ∀ t ∈ (ts ++ us).getLast?, t.isTrivia = false := by
  rcases List.eq_nil_or_concat us with rfl | ⟨us, u, rfl⟩
  · simpa using hts rfl
  · simpa using hus

/-- The last token that goes into an outline is one of its leaves. -/
theorem getLast?_leaves_weave
    (h : (significant tokens).map Token.kind = outline.leaves ++ more) :
    ∀ t ∈ (outline.weave tokens).1.leaves.getLast?, t.isTrivia = false := by
  induction outline generalizing tokens more with
  | nil => simp [weave]
  | leaf kind rest ih =>
      obtain ⟨t, ts, hdrop, ht, rfl, hts⟩ := dropWhile_of_significant h
      have hlast : ∀ u ∈ ([t] ++ (Outline.weave rest ts).1.leaves).getLast?, u.isTrivia = false :=
        last_append (fun _ => by simp [ht]) (ih hts)
      simp only [weave, hdrop, Forest.leaves_append, Forest.leaves_ofLeaves, Forest.leaves_leaf]
      exact last_append (fun hnil => by simp at hnil) hlast
  | node kind children rest ihc ih =>
      rw [Forest.leaves_node, List.append_assoc] at h
      cases hbare : children.isBare with
      | true =>
          obtain ⟨hnone, hsame⟩ := weave_of_isBare hbare tokens
          rw [Forest.isBare_iff.mp hbare, List.nil_append] at h
          simpa [weave, hbare, Forest.ofLeaves, hnone, hsame] using ih h
      | false =>
          rw [← significant_dropWhile] at h
          have hinside := leaves_weave_ne_nil h hbare
          have hchildren := ihc h
          have hrest := ih (woven children h).left
          simp only [weave, hbare, Bool.false_eq_true, if_false, Forest.leaves_append,
            Forest.leaves_ofLeaves, Forest.leaves_node]
          exact last_append (fun hnil => absurd (List.append_eq_nil_iff.mp hnil).1 hinside)
            (last_append (fun _ => hchildren) hrest)

/-- The tokens of every node begin and end with significant ones. -/
theorem tight_of_mem_weave (h : (significant tokens).map Token.kind = outline.leaves ++ more)
    {n : NodeKind × Forest Token} (hn : n ∈ (outline.weave tokens).1.nodes) : Tight n.2.leaves := by
  induction outline generalizing tokens more with
  | nil => simp [weave] at hn
  | leaf kind rest ih =>
      obtain ⟨t, ts, hdrop, -, -, hts⟩ := dropWhile_of_significant h
      exact ih hts (by simpa [weave, hdrop] using hn)
  | node kind children rest ihc ih =>
      rw [Forest.leaves_node, List.append_assoc] at h
      cases hbare : children.isBare with
      | true =>
          obtain ⟨hnone, hsame⟩ := weave_of_isBare hbare tokens
          simp only [weave, hbare, if_true, Forest.ofLeaves, Forest.nil_append, Forest.nodes_node,
            List.mem_cons, List.mem_append] at hn
          rcases hn with rfl | hn | hn
          · rw [hnone]
            exact tight_nil
          · exact ihc h hn
          · exact ih (woven children h).left hn
      | false =>
          rw [← significant_dropWhile] at h
          simp only [weave, hbare, Bool.false_eq_true, if_false, Forest.nodes_append,
            Forest.nodes_ofLeaves, List.nil_append, Forest.nodes_node, List.mem_cons,
            List.mem_append] at hn
          rcases hn with rfl | hn | hn
          · exact ⟨head?_leaves_weave h hbare, getLast?_leaves_weave h⟩
          · exact ihc h hn
          · exact ih (woven children h).left hn

theorem tight_of_mem_fill (h : outline.leaves = (significant tokens).map Token.kind)
    {n : NodeKind × Forest Token} (hn : n ∈ (outline.fill tokens).nodes) : Tight n.2.leaves := by
  rw [fill, Forest.nodes_append, Forest.nodes_ofLeaves, List.append_nil] at hn
  exact @tight_of_mem_weave outline tokens [] (by simp [h]) n hn

end Outline

/-! ### Nodes in their places -/

namespace Node

open Token

theorem size_eq_bytes (f : Forest Token) : f.size = bytes f.leaves := by
  induction f with
  | nil => rfl
  | leaf t rest ih => simp [Forest.size, ih]
  | node k c rest ihc ih => simp [Forest.size, ihc, ih]

/-- The tokens of a node lie end to end from its start on. -/
theorem tiles_leaves {f : Forest Token} {n : Node} {start : Nat} {before after : List Neighbour}
    (h : Tiles start f.leaves) (hn : n ∈ Node.ofForest start before after f) :
    Tiles n.start n.allTokens := by
  induction f generalizing start before after with
  | nil => simp [Node.ofForest] at hn
  | leaf t rest ih =>
      obtain ⟨hstart, hrest⟩ := h
      rw [Token.stop, hstart] at hrest
      exact ih hrest hn
  | node k c rest ihc ih =>
      obtain ⟨hc, hrest⟩ := tiles_append.mp h
      rw [← size_eq_bytes] at hrest
      simp only [Node.ofForest, List.mem_cons, List.mem_append] at hn
      rcases hn with rfl | hn | hn
      · exact hc
      · exact ihc hc hn
      · exact ih hrest hn

theorem stop_eq (n : Node) : n.stop = n.start + bytes n.allTokens := by
  rw [stop, size_eq_bytes]
  rfl

/-- A node starts where its first token does. -/
theorem start_of_tiles {n : Node} {first : Token} (h : Tiles n.start n.allTokens)
    (hfirst : n.allTokens.head? = some first) : n.start = first.start := by
  obtain ⟨ts, hts⟩ := List.head?_eq_some_iff.mp hfirst
  rw [hts] at h
  exact h.1.symm

/-- A node lies from its first token to its last one. -/
theorem span_of_tiles {n : Node} {first last : Token} (h : Tiles n.start n.allTokens)
    (hfirst : n.allTokens.head? = some first) (hlast : n.allTokens.getLast? = some last) :
    n.span = ⟨first.start, last.stop⟩ := by
  rw [span, h.stop_getLast? hlast, ← stop_eq, start_of_tiles h hfirst]

end Node

end StructuredText
