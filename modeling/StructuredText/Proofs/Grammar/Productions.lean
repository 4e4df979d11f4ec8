import StructuredText.Proofs.Grammar.RecoveredStatements
import StructuredText.Proofs.Tree.Nodes

/-!
Properties of the statements of the grammar. A property of shapes that the ways of putting shapes
together keep, and that all shapes without a `;` have, is one of statements as soon as blocks have it.
So it is for what stands in the blocks of a derivation: entries, which are derivations themselves.
-/

namespace StructuredText

open Shape

open StructuredText.Derivation (Derives)

/-- A property of shapes that the ways of putting shapes together keep, unless a block is made. -/
structure Shape.Productive (Q : Shape → Prop) : Prop where
  unterminated {p : Shape} : Spells Ahead.Unterminated p → Q p
  tree {kind : NodeKind} {p : Shape} : kind ≠ .block → Q p → Q (tree kind p)
  oneOf {ps : List Shape} : (∀ p ∈ ps, Q p) → Q (oneOf ps)
  cat {ps : List Shape} : (∀ p ∈ ps, Q p) → Q (cat ps)
  many {p : Shape} : Q p → Q (many p)

namespace Shape.Productive

open StructuredText.Derivation

variable {Q : Shape → Prop} {p : Shape} {k : TokenKind} {D : Entry → Shape}

theorem token (hQ : Productive Q) (hk : k ≠ .semicolon) : Q (Shape.token k) :=
  hQ.unterminated (Spells.token fun _ hx => List.forall_mem_singleton.mpr (hx ▸ hk))

theorem optional (hQ : Productive Q) (h : Q p) : Q (optional p) := by
  have hnone : Q (Shape.cat []) := hQ.cat (by simp)
  have heither : Shape.optional p = Shape.oneOf [Shape.cat [], p] := by
    funext f
    simp [Shape.optional, Shape.oneOf, Shape.cat]
  rw [heither]
  exact hQ.oneOf (by simpa using ⟨hnone, h⟩)

theorem statement (hQ : Productive Q)
    (hexpression : Spells Ahead.Unterminated (D (.expression 0)))
    (hlist : Spells Ahead.Unterminated (argumentList D)) (hblock : Q (block D)) :
    Q (statement D) := by
  have hvalue := hQ.unterminated hexpression
  have hname := hQ.unterminated name_unterminated
  have helse : Q (Shape.optional (elseClause D)) :=
    hQ.optional (hQ.tree (by decide) (hQ.cat (by simpa using ⟨hQ.token (by decide), hblock⟩)))
  have helsif : Q (elsifClause D) := by
    refine hQ.tree (by decide) (hQ.cat ?_)
    simpa using ⟨hQ.token (by decide), hvalue, hQ.token (by decide), hblock⟩
  have hitem : Q (caseItem D) := by
    refine hQ.tree (by decide) (hQ.cat ?_)
    simpa using ⟨hQ.unterminated caseLabels_unterminated, hQ.token (by decide), hblock⟩
  refine hQ.oneOf ?_
  simp only [List.forall_mem_cons]
  refine ⟨hQ.tree (by decide) (hQ.cat ?_), hQ.tree (by decide) (hQ.cat ?_),
    hQ.tree (by decide) (hQ.cat ?_), hQ.tree (by decide) (hQ.cat ?_),
    hQ.tree (by decide) (hQ.cat ?_), by simp⟩
  · simpa using ⟨hname, hQ.token (by decide), hvalue⟩
  · simpa using ⟨hname, hQ.unterminated hlist⟩
  · simpa using ⟨hQ.token (by decide), hvalue, hQ.token (by decide), hblock, hQ.many helsif, helse,
      hQ.token (by decide)⟩
  · simpa using ⟨hQ.token (by decide), hvalue, hQ.token (by decide), hQ.many hitem, helse,
      hQ.token (by decide)⟩
  · simpa using ⟨hQ.token (by decide), hQ.optional hvalue⟩

/-- The induction is on how many entries are open at a time. -/
theorem derives (hQ : Productive Q)
    (hblock : ∀ levels, Q (Derives levels .statement) → Q (block (Derives levels))) (levels : Nat) :
    Q (Derives levels .statement) := by
  induction levels with
  | zero => exact hQ.unterminated fun _ hf => hf.elim
  | succ levels ih =>
      exact hQ.statement (fun _ hf => Ahead.unterminated_layered.expression hf 0)
        (fun _ hf => Ahead.unterminated_layered.argumentList hf 0) (hblock levels ih)

end Shape.Productive

/-! ### What stands in blocks -/

namespace Shape

variable {p : Shape} {ps : List Shape}

/-- The entries of blocks are derivations, in the rows of a shape. -/
def Itemized (p : Shape) : Prop :=
  ∀ f, p f → ∀ c, (.block, c) ∈ f.nodes → .semicolon ∈ c.leaves.map Symbol.kind →
    ∃ levels, many (Derivation.item (Derives levels)) c

theorem itemized_token (k : TokenKind) : Itemized (token k) := by
  rintro _ ⟨x, -, rfl⟩ c hc
  simp at hc

theorem itemized_productive : Productive Itemized where
  unterminated h f hf c hc hmem := by
    obtain ⟨x, hx, hkind⟩ := List.mem_map.mp hmem
    exact absurd hkind (h f hf x (Forest.mem_leaves_of_mem_nodes hc hx))
  tree hkind h := by
    rintro _ ⟨c, hc, rfl⟩ d hd
    simp only [Forest.nodes_node, Forest.nodes_nil, List.append_nil, List.mem_cons, Prod.mk.injEq] at hd
    rcases hd with ⟨hblock, -⟩ | hd
    · exact absurd hblock.symm hkind
    · exact h c hc d hd
  oneOf h := by
    rintro f ⟨p, hp, hf⟩
    exact h p hp f hf
  cat {ps} h := by
    induction ps with
    | nil =>
        rintro _ rfl c hc
        cases hc
    | cons p ps ih =>
        obtain ⟨hp, hps⟩ := List.forall_mem_cons.mp h
        intro f hf c hc
        obtain ⟨a, b, ha, hb, rfl⟩ := cat_cons.mp hf
        rw [Forest.nodes_append] at hc
        exact (List.mem_append.mp hc).elim (hp a ha c) (ih hps b hb c)
  many h := by
    intro f hf c hc
    induction hf with
    | nil => cases hc
    | cons ha _ ih =>
        rw [Forest.nodes_append] at hc
        exact (List.mem_append.mp hc).elim (h _ ha c) ih

end Shape

namespace Derivation

/-- What stands in a block of a derivation is a row of entries, if there is a `;` in it. -/
theorem block_itemized (levels : Nat) : Itemized (block (Derives levels)) := by
  have hblock (levels : Nat) (h : Itemized (Derives levels .statement)) :
      Itemized (block (Derives levels)) := by
    have hitem : Itemized (item (Derives levels)) :=
      itemized_productive.oneOf (by
        simpa using ⟨itemized_productive.tree (by decide) (itemized_token .semicolon),
          itemized_productive.cat (by simpa using ⟨h, itemized_token .semicolon⟩)⟩)
    rintro _ ⟨c, hc, rfl⟩ d hd hmem
    simp only [Forest.nodes_node, Forest.nodes_nil, List.append_nil, List.mem_cons, Prod.mk.injEq,
      true_and] at hd
    rcases hd with rfl | hd
    · exact ⟨levels, hc⟩
    · exact itemized_productive.many hitem c hc d hd hmem
  exact hblock levels (itemized_productive.derives hblock levels)

/-- The trees of a row of entries are lone terminators and statements. -/
theorem exists_item {D : Entry → Shape} {f : Forest Symbol} (hf : many (item D) f)
    {n : NodeKind × Forest Symbol} (hn : n ∈ f.trees) :
    ∃ g, item D g ∧ n ∈ g.trees := by
  induction hf with
  | nil => cases hn
  | cons hg _ ih =>
      rw [Forest.trees_append] at hn
      exact (List.mem_append.mp hn).elim (fun h => ⟨_, hg, h⟩) ih

/-- A statement among the entries of a block begins as statements do. -/
theorem starts_of_mem_trees {levels : Nat} {f c : Forest Symbol} {kind : NodeKind}
    (hf : many (item (Derives levels)) f) (hn : (kind, c) ∈ f.trees) (hkind : kind.isStatement) :
    ∃ x l, c.leaves = x :: l ∧ x.kind.startsStatement := by
  obtain ⟨g, hg, hn⟩ := exists_item hf hn
  simp only [item, oneOf_cons, oneOf_nil, or_false] at hg
  rcases hg with ⟨_, ⟨x, -, rfl⟩, rfl⟩ | ⟨g, _, hg, ⟨x, -, rfl⟩, rfl⟩
  · simp only [Forest.trees_node, Forest.trees_nil, List.mem_singleton, Prod.mk.injEq] at hn
    rw [hn.1] at hkind
    exact absurd hkind (by decide)
  · obtain ⟨kind', d, rfl, -⟩ := statement_node hg
    simp only [Forest.node_append, Forest.nil_append, Forest.trees_node, Forest.trees_leaf,
      Forest.trees_nil, List.mem_singleton, Prod.mk.injEq] at hn
    obtain ⟨rfl, rfl⟩ := hn
    simpa using derives_statement_starts _ hg

end Derivation

end StructuredText
