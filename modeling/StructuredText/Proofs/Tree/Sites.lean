import StructuredText.Proofs.Parts
import StructuredText.Proofs.Grammar.Calls
import StructuredText.Proofs.Tree.Intervals

/-!
The nodes of a tree at their sites. As many significant tokens stand before a node as its site in the
outline says, so what fits the symbols at a site is true of the tokens of the node.
-/

namespace StructuredText

open Parse Outline

namespace Outline

variable {f : Outline} {i : Nat} {n : Site}

/-- A node of a row lies within the row. -/
theorem place_of_mem_sites (hn : n ∈ sites i f) :
    i ≤ n.first ∧ n.first + n.children.leaves.length ≤ i + f.leaves.length := by
  induction f generalizing i with
  | nil => cases hn
  | leaf k rest ih =>
      have := ih hn
      rw [Forest.leaves_leaf, List.length_cons]
      omega
  | node kind c rest ihc ih =>
      simp only [sites, List.mem_cons, List.mem_append] at hn
      simp only [Forest.leaves_node, List.length_append]
      rcases hn with rfl | hn | hn
      · simp
      · have := ihc hn
        omega
      · have := ih hn
        omega

/-- Each conversion begins with a symbol of its own, so it comes before those that are in its arguments
or behind it. -/
theorem conversions_pairwise (h : ∀ n ∈ sites i f, n.kind = .typeConversion →
      ∃ d, n.children = .node .identifier (.leaf .ident .nil) (.node .argumentList d .nil)) :
    ((sites i f).filter fun n => n.kind = .typeConversion).Pairwise fun m n => m.first < n.first := by
  induction f generalizing i with
  | nil => exact .nil
  | leaf k rest ih => exact ih h
  | node kind c rest ihc ih =>
      rw [sites, List.forall_mem_cons, List.forall_mem_append] at h
      obtain ⟨hself, hbelow, hbehind⟩ := h
      have hrow : ((sites i c ++ sites (i + c.leaves.length) rest).filter
          fun n => n.kind = .typeConversion).Pairwise fun m n => m.first < n.first := by
        rw [List.filter_append, List.pairwise_append]
        refine ⟨ihc hbelow, ih hbehind, fun m hm n hn => ?_⟩
        obtain ⟨hm, hkind⟩ := List.mem_filter.mp hm
        obtain ⟨d, hparts⟩ := hbelow m hm (of_decide_eq_true hkind)
        have hmplace := (place_of_mem_sites hm).2
        have hnplace := (place_of_mem_sites (List.mem_filter.mp hn).1).1
        simp only [hparts, Forest.leaves_node, Forest.leaves_leaf, List.length_append,
          List.length_cons] at hmplace
        omega
      rw [sites, List.filter_cons]
      split
      next hkind =>
        refine List.pairwise_cons.mpr ⟨fun n hn => ?_, hrow⟩
        obtain ⟨d, rfl⟩ : ∃ d, c = .node .identifier (.leaf .ident .nil) (.node .argumentList d .nil) :=
          hself (of_decide_eq_true hkind)
        obtain ⟨hn, hconversion⟩ := List.mem_filter.mp hn
        have hkinds := of_decide_eq_true hconversion
        simp only [sites, Forest.leaves_node, Forest.leaves_leaf, Forest.leaves_nil, List.append_nil,
          List.nil_append, List.cons_append, List.length_cons, List.length_nil, List.mem_cons,
          List.mem_append] at hn
        rcases hn with rfl | rfl | hn | hn
        · cases hkinds
        · cases hkinds
        · exact (place_of_mem_sites hn).1
        · exact Nat.le_trans (by simp) (place_of_mem_sites hn).1
      next => exact hrow

end Outline

/-- A node of a row is at a site of its outline, which counts the significant tokens before it. -/
theorem Node.exists_site {f : Forest Token} {n : Node} {start : Nat} {before after : List Neighbour}
    (hn : n ∈ Node.ofForest start before after f) (i : Nat) :
    ∃ front back, f.leaves = front ++ (n.allTokens ++ back) ∧
      ⟨n.kind, i + (significant front).length, n.outline⟩ ∈
        sites i (f.significantPart (fun t => !t.isTrivia) Token.kind) := by
  induction f generalizing start before after i with
  | nil => cases hn
  | leaf t rest ih =>
      cases htrivia : t.isTrivia with
      | true =>
          obtain ⟨front, back, hleaves, hsite⟩ := ih hn i
          refine ⟨t :: front, back, congrArg (t :: ·) hleaves, ?_⟩
          simpa [significant, Forest.significantPart, Forest.filter, htrivia] using hsite
      | false =>
          obtain ⟨front, back, hleaves, hsite⟩ := ih hn (i + 1)
          refine ⟨t :: front, back, congrArg (t :: ·) hleaves, ?_⟩
          have hplace : i + (significant (t :: front)).length = i + 1 + (significant front).length := by
            simp [significant, htrivia]
            omega
          simpa [hplace, Forest.significantPart, Forest.filter, htrivia, sites] using hsite
  | node k c rest ihc ih =>
      have hsites : sites i ((Forest.node k c rest).significantPart (fun t => !t.isTrivia) Token.kind) =
          ⟨k, i, c.significantPart (fun t => !t.isTrivia) Token.kind⟩ ::
            (sites i (c.significantPart (fun t => !t.isTrivia) Token.kind) ++
              sites (i + (significant c.leaves).length)
                (rest.significantPart (fun t => !t.isTrivia) Token.kind)) := by
        rw [← Forest.length_leaves_significantPart]
        rfl
      rw [hsites]
      simp only [Node.ofForest, List.mem_cons, List.mem_append] at hn ⊢
      rcases hn with rfl | hn | hn
      · exact ⟨[], rest.leaves, rfl, .inl rfl⟩
      · obtain ⟨front, back, hleaves, hsite⟩ := ihc hn i
        exact ⟨front, back ++ rest.leaves, by simp [hleaves], .inr (.inl hsite)⟩
      · obtain ⟨front, back, hleaves, hsite⟩ := ih hn (i + (significant c.leaves).length)
        refine ⟨c.leaves ++ front, back, by simp [hleaves], .inr (.inr ?_)⟩
        rwa [significant_append, List.length_append, ← Nat.add_assoc]

namespace Parse

variable {source : List Char} {n : Node}

/-- The site of a node in the outline of a text, and its tokens among those of the text. -/
theorem exists_site (hn : n ∈ (ofText source).root.selfAndBelow.tail) :
    ∃ first, ⟨n.kind, first, n.outline⟩ ∈ sites 0 (outline source) ∧
      ∀ j t, (significant n.allTokens)[j]? = some t →
        (significant (Token.lex source))[first + j]? = some t := by
  obtain ⟨front, back, hleaves, hsite⟩ := Node.exists_site hn 0
  refine ⟨(significant front).length, ?_, fun j t ht => ?_⟩
  · have houtline := outline_root source
    rw [Nat.zero_add] at hsite
    exact houtline ▸ hsite
  · have htokens : (ofText source).root.children.leaves = Token.lex source := leaves_ofText source
    have hlt := (List.getElem?_eq_some_iff.mp ht).1
    rw [← htokens, hleaves, significant_append, significant_append,
      List.getElem?_append_right (Nat.le_add_right _ _), Nat.add_sub_cancel_left,
      List.getElem?_append_left hlt, ht]

theorem mem_tail_of_kind (hn : n ∈ (ofText source).root.selfAndBelow) (hkind : n.kind ≠ .sourceFile) :
    n ∈ (ofText source).root.selfAndBelow.tail := by
  rcases List.mem_cons.mp hn with rfl | hn
  · exact absurd rfl hkind
  · exact hn

/-- A node fits the symbols at its site. -/
theorem fits (hn : n ∈ (ofText source).root.selfAndBelow.tail) :
    ∃ first, ⟨n.kind, first, n.outline⟩ ∈ sites 0 (outline source) ∧
      Site.Fits (symbols source) ⟨n.kind, first, n.outline⟩ ∧
      ∀ j t, (significant n.allTokens)[j]? = some t →
        (significant (Token.lex source))[first + j]? = some t := by
  obtain ⟨first, hsite, htokens⟩ := exists_site hn
  exact ⟨first, hsite, (Grammar.charted_parse (symbols source)).1.fits _ hsite, htokens⟩

end Parse

/-! ### Nodes that hold little -/

namespace Node

variable {n : Node}

/-- A node without nodes below it has all its tokens itself. -/
theorem filter_tokens_of_trees (h : n.outline.trees = []) :
    (n.tokens.filter fun t => !t.isTrivia) = significant n.allTokens := by
  have hrow {f : Forest Token} (hf : f.trees = []) : f.ownLeaves = f.leaves := by
    induction f with
    | nil => rfl
    | leaf t rest ih => exact congrArg (t :: ·) (ih hf)
    | node k c rest => cases hf
  rw [outline, Forest.trees_significantPart, List.map_eq_nil_iff] at h
  rw [tokens_eq_ownLeaves, hrow h]
  rfl

/-- The token of a node that holds one token only. -/
theorem exists_token {k : TokenKind} (h : n.outline = .leaf k .nil) :
    ∃ t, significant n.allTokens = [t] ∧ t.kind = k ∧ n.firstToken? = some t := by
  have hkinds := n.leaves_outline
  rw [h, Forest.leaves_leaf, Forest.leaves_nil] at hkinds
  obtain ⟨t, ht, hkind⟩ := List.map_eq_singleton_iff.mp hkinds.symm
  refine ⟨t, ht, hkind, ?_⟩
  rw [firstToken?, ← List.head?_filter, filter_tokens_of_trees (h ▸ rfl), ht]
  rfl

end Node

end StructuredText
