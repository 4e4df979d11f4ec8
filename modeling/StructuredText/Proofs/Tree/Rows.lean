import Mathlib.Data.List.Nodup
import StructuredText.Proofs.Tree.Nodes

/-!
The places of leaves. If no leaf of a tree is there twice, each stands in one row only, that of one
node, and at one place of it.
-/

namespace StructuredText.Forest

variable {α β : Type} {f g : Forest α} {n m : NodeKind × Forest α} {a : α}

theorem map_congr {h h' : α → β} (hsame : ∀ a ∈ f.leaves, h a = h' a) : f.map h = f.map h' := by
  induction f with
  | nil => rfl
  | leaf a rest ih =>
      obtain ⟨ha, hrest⟩ := List.forall_mem_cons.mp hsame
      rw [map_leaf, map_leaf, ha, ih hrest]
  | node k c rest ihc ih =>
      obtain ⟨hc, hrest⟩ := List.forall_mem_append.mp hsame
      rw [map_node, map_node, ihc hc, ih hrest]

theorem leaves_withoutPragmas_sublist (f : Forest α) : f.withoutPragmas.leaves.Sublist f.leaves := by
  induction f with
  | nil => exact .refl _
  | leaf a rest ih => exact ih.cons_cons a
  | node k c rest ihc ih =>
      unfold withoutPragmas
      split
      · exact ih.trans (List.sublist_append_right _ _)
      · exact ihc.append ih

theorem nodes_map (h : α → β) (f : Forest α) :
    (f.map h).nodes = f.nodes.map fun n => (n.1, n.2.map h) := by
  induction f with
  | nil => rfl
  | leaf a rest ih => exact ih
  | node k c rest ihc ih => simp [ihc, ih]

/-- What is in a node of the row stands in the row without a gap. -/
theorem leaves_infix_of_mem_nodes (h : n ∈ f.nodes) : n.2.leaves <:+: f.leaves := by
  induction f with
  | nil => cases h
  | leaf b rest ih => exact (ih h).trans (List.suffix_cons b _).isInfix
  | node k c rest ihc ih =>
      rw [nodes_node, List.mem_cons, List.mem_append] at h
      rcases h with rfl | h | h
      · exact (List.prefix_append _ _).isInfix
      · exact (ihc h).trans (List.prefix_append _ _).isInfix
      · exact (ih h).trans (List.suffix_append _ _).isInfix

/-- A leaf of the row itself is in none of its nodes. -/
theorem notMem_leaves_of_mem_ownLeaves (h : f.leaves.Nodup) (ha : a ∈ f.ownLeaves)
    (hn : n ∈ f.nodes) : a ∉ n.2.leaves := by
  induction f with
  | nil => cases hn
  | leaf b rest ih =>
      obtain ⟨hb, hrest⟩ := List.nodup_cons.mp h
      rcases List.mem_cons.mp ha with rfl | ha
      · exact fun hmem => hb (mem_leaves_of_mem_nodes (f := rest) hn hmem)
      · exact ih hrest ha hn
  | node k c rest _ ih =>
      obtain ⟨-, hrest, hdisjoint⟩ := List.nodup_append'.mp h
      have hbehind := mem_leaves_of_mem_ownLeaves (show a ∈ rest.ownLeaves from ha)
      rw [nodes_node, List.mem_cons, List.mem_append] at hn
      rcases hn with rfl | hn | hn
      · exact fun hmem => hdisjoint hmem hbehind
      · exact fun hmem => hdisjoint (mem_leaves_of_mem_nodes hn hmem) hbehind
      · exact ih hrest ha hn

/-- A leaf stands in the row of one node only. -/
theorem eq_of_mem_ownLeaves (h : f.leaves.Nodup) (hn : n ∈ f.nodes) (hm : m ∈ f.nodes)
    (ha : a ∈ n.2.ownLeaves) (ha' : a ∈ m.2.ownLeaves) : n = m := by
  induction f with
  | nil => cases hn
  | leaf b rest ih => exact ih (List.nodup_cons.mp h).2 hn hm
  | node k c rest ihc ih =>
      obtain ⟨hc, hrest, hdisjoint⟩ := List.nodup_append'.mp h
      -- A row in the first node and one behind it have no leaf in common.
      have hapart {n m : NodeKind × Forest α} (hn : n = (k, c) ∨ n ∈ c.nodes) (hm : m ∈ rest.nodes)
          (ha : a ∈ n.2.ownLeaves) (ha' : a ∈ m.2.ownLeaves) : False := by
        refine hdisjoint ?_ (mem_leaves_of_mem_nodes hm (mem_leaves_of_mem_ownLeaves ha'))
        rcases hn with rfl | hn
        · exact mem_leaves_of_mem_ownLeaves ha
        · exact mem_leaves_of_mem_nodes hn (mem_leaves_of_mem_ownLeaves ha)
      rw [nodes_node, List.mem_cons, List.mem_append, ← or_assoc] at hn hm
      rcases hn with hn | hn <;> rcases hm with hm | hm
      · rcases hn with rfl | hn <;> rcases hm with rfl | hm
        · rfl
        · exact absurd (mem_leaves_of_mem_ownLeaves ha') (notMem_leaves_of_mem_ownLeaves hc ha hm)
        · exact absurd (mem_leaves_of_mem_ownLeaves ha) (notMem_leaves_of_mem_ownLeaves hc ha' hn)
        · exact ihc hc hn hm
      · exact (hapart hn hm ha ha').elim
      · exact (hapart hm hn ha' ha).elim
      · exact ih hrest hn hm

theorem notMem_ownLeaves_of_nodup {g : Forest α} (h : (f ++ .leaf a g).leaves.Nodup) :
    a ∉ f.ownLeaves := by
  rw [leaves_append, leaves_leaf] at h
  intro hmem
  exact (List.nodup_append'.mp h).2.2 (mem_leaves_of_mem_ownLeaves hmem) List.mem_cons_self

/-- A row is cut in one way only at a leaf that is there once. -/
theorem append_leaf_inj {f' g' : Forest α} (hf : a ∉ f.ownLeaves) (hf' : a ∉ f'.ownLeaves)
    (h : f ++ leaf a g = f' ++ leaf a g') : f = f' ∧ g = g' := by
  induction f generalizing f' with
  | nil =>
      cases f' with
      | nil => exact ⟨rfl, (leaf.inj h).2⟩
      | leaf b f' =>
          obtain ⟨rfl, -⟩ := leaf.inj h
          simp [ownLeaves] at hf'
      | node k c f' => cases h
  | leaf b f ih =>
      cases f' with
      | nil =>
          obtain ⟨rfl, -⟩ := leaf.inj h
          simp [ownLeaves] at hf
      | leaf b' f' =>
          obtain ⟨rfl, hrest⟩ := leaf.inj h
          simp only [ownLeaves, List.mem_cons, not_or] at hf hf'
          obtain ⟨rfl, hg⟩ := ih hf.2 hf'.2 hrest
          exact ⟨rfl, hg⟩
      | node k c f' => cases h
  | node k c f _ ih =>
      cases f' with
      | nil => cases h
      | leaf b f' => cases h
      | node k' c' f' =>
          obtain ⟨rfl, rfl, hrest⟩ := node.inj h
          have hbehind : a ∉ f'.ownLeaves := hf'
          obtain ⟨rfl, hg⟩ := ih hf hbehind hrest
          exact ⟨rfl, hg⟩

/-- The last tree of a row. -/
theorem append_node_inj {f' c c' : Forest α} {k k' : NodeKind}
    (h : f ++ node k c nil = f' ++ node k' c' nil) : k = k' ∧ c = c' := by
  have htrees := congrArg trees h
  rw [trees_append, trees_append, trees_node, trees_node, trees_nil] at htrees
  have hlast := List.append_inj_right' htrees rfl
  simpa using hlast

end StructuredText.Forest
