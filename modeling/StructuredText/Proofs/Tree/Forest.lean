import StructuredText.Tree.Forest

/-!
Rows of trees under a change of labels, and with some of what is in them left out: leaves, pragmas,
or bodies with nothing in them. A row is known by its shape and its leaves.
-/

namespace StructuredText

namespace Forest

variable {α β : Type}

/-- The row with other labels on its leaves. -/
def map (g : α → β) : Forest α → Forest β
  | .nil => .nil
  | .leaf a rest => .leaf (g a) (rest.map g)
  | .node k children rest => .node k (children.map g) (rest.map g)

@[simp] theorem map_nil (g : α → β) : (nil : Forest α).map g = nil := rfl

@[simp] theorem map_leaf (g : α → β) (a : α) (f : Forest α) :
    (leaf a f).map g = leaf (g a) (f.map g) := rfl

@[simp] theorem map_node (g : α → β) (k : NodeKind) (c f : Forest α) :
    (node k c f).map g = node k (c.map g) (f.map g) := rfl

@[simp] theorem map_append (g : α → β) (f f' : Forest α) :
    (f ++ f').map g = f.map g ++ f'.map g := by
  induction f with
  | nil => rfl
  | leaf a rest ih => simp [ih]
  | node k c rest _ ih => simp [ih]

theorem append_eq_nil_iff {f g : Forest α} : f ++ g = nil ↔ f = nil ∧ g = nil := by
  cases f <;> simp

theorem map_map {γ : Type} (g : α → β) (h : β → γ) (f : Forest α) :
    (f.map g).map h = f.map (h ∘ g) := by
  induction f with
  | nil => rfl
  | leaf a rest ih => simp [ih]
  | node k c rest ihc ih => simp [ihc, ih]

/-! ### Rows whose labels are changed to those of a row -/

theorem eq_nil_of_map_eq_nil {h : α → β} {f : Forest α} (hf : f.map h = nil) : f = nil := by
  cases f with
  | nil => rfl
  | leaf a rest => cases hf
  | node k c rest => cases hf

theorem exists_of_map_eq_leaf {h : α → β} {f : Forest α} {b : β} {g : Forest β}
    (hf : f.map h = leaf b g) : ∃ a f', f = leaf a f' ∧ h a = b ∧ f'.map h = g := by
  cases f with
  | nil => cases hf
  | leaf a rest =>
      obtain ⟨ha, hrest⟩ := leaf.inj hf
      exact ⟨a, rest, rfl, ha, hrest⟩
  | node k c rest => cases hf

theorem exists_of_map_eq_node {h : α → β} {f : Forest α} {k : NodeKind} {d g : Forest β}
    (hf : f.map h = node k d g) : ∃ c f', f = node k c f' ∧ c.map h = d ∧ f'.map h = g := by
  cases f with
  | nil => cases hf
  | leaf a rest => cases hf
  | node k' c rest =>
      obtain ⟨rfl, hc, hrest⟩ := node.inj hf
      exact ⟨c, rest, rfl, hc, hrest⟩

theorem exists_of_map_eq_append {h : α → β} {f : Forest α} {a b : Forest β}
    (hf : f.map h = a ++ b) : ∃ g g', f = g ++ g' ∧ g.map h = a ∧ g'.map h = b := by
  induction a generalizing f with
  | nil => exact ⟨nil, f, rfl, rfl, hf⟩
  | leaf y a ih =>
      obtain ⟨x, f, rfl, hx, hf⟩ := exists_of_map_eq_leaf hf
      obtain ⟨g, g', rfl, rfl, rfl⟩ := ih hf
      exact ⟨leaf x g, g', rfl, by rw [map_leaf, hx], rfl⟩
  | node k d a _ ih =>
      obtain ⟨c, f, rfl, hc, hf⟩ := exists_of_map_eq_node hf
      obtain ⟨g, g', rfl, rfl, rfl⟩ := ih hf
      exact ⟨node k c g, g', rfl, by rw [map_node, hc], rfl⟩

@[simp] theorem leaves_nil : (nil : Forest α).leaves = [] := rfl

@[simp] theorem leaves_leaf (a : α) (f : Forest α) : (leaf a f).leaves = a :: f.leaves := rfl

@[simp] theorem leaves_node (k : NodeKind) (c f : Forest α) :
    (node k c f).leaves = c.leaves ++ f.leaves := rfl

@[simp] theorem leaves_map (g : α → β) (f : Forest α) : (f.map g).leaves = f.leaves.map g := by
  induction f with
  | nil => rfl
  | leaf a rest ih => simp [ih]
  | node k c rest ihc ih => simp [ihc, ih]

theorem isBare_iff {f : Forest α} : f.isBare ↔ f.leaves = [] := by
  induction f with
  | nil => simp [isBare]
  | leaf a rest _ => simp [isBare]
  | node k c rest ihc ih => simp [isBare, ihc, ih]

theorem isBare_append (f g : Forest α) : (f ++ g).isBare = (f.isBare && g.isBare) := by
  rw [Bool.eq_iff_iff]
  simp [isBare_iff]

/-- A row is known by its shape and its leaves. -/
theorem eq_of_map_eq (g : α → β) {f f' : Forest α} (hmap : f.map g = f'.map g)
    (hleaves : f.leaves = f'.leaves) : f = f' := by
  induction f generalizing f' with
  | nil =>
      cases f' with
      | nil => rfl
      | leaf a rest => simp at hmap
      | node k c rest => simp at hmap
  | leaf a rest ih =>
      cases f' with
      | nil => simp at hmap
      | leaf b rest' =>
          simp only [leaves_leaf, List.cons.injEq] at hleaves
          simp only [map_leaf, leaf.injEq] at hmap
          rw [hleaves.1, ih hmap.2 hleaves.2]
      | node k c rest' => simp at hmap
  | node k c rest ihc ih =>
      cases f' with
      | nil => simp at hmap
      | leaf b rest' => simp at hmap
      | node k' c' rest' =>
          simp only [map_node, node.injEq] at hmap
          obtain ⟨rfl, hc, hrest⟩ := hmap
          have hlength : c.leaves.length = c'.leaves.length := by
            simpa using congrArg (fun f : Forest β => f.leaves.length) hc
          obtain ⟨hcl, hrl⟩ := List.append_inj hleaves hlength
          rw [ihc hc hcl, ih hrest hrl]

/-- The row without the leaves that a test refuses. -/
def filter (p : α → Bool) : Forest α → Forest α
  | .nil => .nil
  | .leaf a rest => if p a then .leaf a (rest.filter p) else rest.filter p
  | .node k children rest => .node k (children.filter p) (rest.filter p)

@[simp] theorem filter_append (p : α → Bool) (f g : Forest α) :
    (f ++ g).filter p = f.filter p ++ g.filter p := by
  induction f with
  | nil => rfl
  | leaf a rest ih =>
      simp only [leaf_append, filter, ih]
      split <;> rfl
  | node k c rest _ ih => simp [filter, ih]

theorem leaves_filter (p : α → Bool) (f : Forest α) : (f.filter p).leaves = f.leaves.filter p := by
  induction f with
  | nil => rfl
  | leaf a rest ih =>
      simp only [filter, leaves_leaf, List.filter_cons]
      split <;> simp [ih]
  | node k c rest ihc ih => simp [filter, ihc, ih]

theorem filter_ofLeaves_eq_nil {p : α → Bool} {as : List α} (h : ∀ a ∈ as, p a = false) :
    (ofLeaves as).filter p = nil := by
  induction as with
  | nil => rfl
  | cons a as ih =>
      simp only [List.mem_cons, forall_eq_or_imp] at h
      simp [ofLeaves, filter, h.1, ih h.2]

/-- The kinds of all nodes, each before those below it. -/
def kinds : Forest α → List NodeKind
  | .nil => []
  | .leaf _ rest => rest.kinds
  | .node k children rest => k :: (children.kinds ++ rest.kinds)

@[simp] theorem kinds_nil : (nil : Forest α).kinds = [] := rfl

@[simp] theorem kinds_leaf (a : α) (f : Forest α) : (leaf a f).kinds = f.kinds := rfl

@[simp] theorem kinds_node (k : NodeKind) (c f : Forest α) :
    (node k c f).kinds = k :: (c.kinds ++ f.kinds) := rfl

@[simp] theorem kinds_append (f g : Forest α) : (f ++ g).kinds = f.kinds ++ g.kinds := by
  induction f with
  | nil => rfl
  | leaf a rest ih => simp [ih]
  | node k c rest _ ih => simp [ih]

@[simp] theorem kinds_map (g : α → β) (f : Forest α) : (f.map g).kinds = f.kinds := by
  induction f with
  | nil => rfl
  | leaf a rest ih => simp [ih]
  | node k c rest ihc ih => simp [ihc, ih]

@[simp] theorem kinds_filter (p : α → Bool) (f : Forest α) : (f.filter p).kinds = f.kinds := by
  induction f with
  | nil => rfl
  | leaf a rest ih =>
      simp only [filter]
      split <;> simp [ih]
  | node k c rest ihc ih => simp [filter, ihc, ih]

/-- The row without its pragmas, at any depth. -/
def withoutPragmas : Forest α → Forest α
  | .nil => .nil
  | .leaf a rest => .leaf a rest.withoutPragmas
  | .node k children rest =>
    if k = .pragmaItem then rest.withoutPragmas
    else .node k children.withoutPragmas rest.withoutPragmas

@[simp] theorem withoutPragmas_nil : (nil : Forest α).withoutPragmas = nil := rfl

@[simp] theorem withoutPragmas_leaf (a : α) (f : Forest α) :
    (leaf a f).withoutPragmas = leaf a f.withoutPragmas := rfl

theorem withoutPragmas_node {k : NodeKind} (hk : k ≠ .pragmaItem) (c f : Forest α) :
    (node k c f).withoutPragmas = node k c.withoutPragmas f.withoutPragmas :=
  if_neg hk

@[simp] theorem withoutPragmas_pragmaItem (c f : Forest α) :
    (node .pragmaItem c f).withoutPragmas = f.withoutPragmas := rfl

@[simp] theorem withoutPragmas_append (f g : Forest α) :
    (f ++ g).withoutPragmas = f.withoutPragmas ++ g.withoutPragmas := by
  induction f with
  | nil => rfl
  | leaf a rest ih => simp [ih]
  | node k c rest _ ih =>
      simp only [node_append, withoutPragmas, ih]
      split <;> rfl

theorem map_withoutPragmas (g : α → β) (f : Forest α) :
    f.withoutPragmas.map g = (f.map g).withoutPragmas := by
  induction f with
  | nil => rfl
  | leaf a rest ih => simp [ih]
  | node k c rest ihc ih =>
      simp only [map_node, withoutPragmas]
      split
      · exact ih
      · simp [ihc, ih]

end Forest

/-! ### Bodies with nothing in them -/

namespace NodeKind

/-- The kinds of the units that have a body. -/
def hasBody : NodeKind → Bool
  | .programDeclaration | .functionDeclaration | .functionBlockDeclaration => true
  | _ => false

end NodeKind

namespace Forest

variable {α : Type}

/-- The row without those of its trees that are blocks with nothing in them. -/
def withoutEmptyBlocks : Forest α → Forest α
  | .nil => .nil
  | .leaf a rest => .leaf a rest.withoutEmptyBlocks
  | .node .block .nil rest => rest.withoutEmptyBlocks
  | .node k children rest => .node k children rest.withoutEmptyBlocks

/-- The row, in which a unit has a block only if there is something in it. -/
def withoutEmptyBodies : Forest α → Forest α
  | .nil => .nil
  | .leaf a rest => .leaf a rest.withoutEmptyBodies
  | .node k children rest =>
    .node k (if k.hasBody then children.withoutEmptyBlocks else children) rest.withoutEmptyBodies

@[simp] theorem withoutEmptyBlocks_nil : (nil : Forest α).withoutEmptyBlocks = nil := rfl

@[simp] theorem withoutEmptyBlocks_leaf (a : α) (f : Forest α) :
    (leaf a f).withoutEmptyBlocks = leaf a f.withoutEmptyBlocks := rfl

theorem withoutEmptyBlocks_node {k : NodeKind} {c : Forest α} (h : ¬(k = .block ∧ c = .nil))
    (f : Forest α) : (node k c f).withoutEmptyBlocks = node k c f.withoutEmptyBlocks := by
  rw [withoutEmptyBlocks]
  exact fun hk hc => h ⟨hk, hc⟩

@[simp] theorem withoutEmptyBlocks_append (f g : Forest α) :
    (f ++ g).withoutEmptyBlocks = f.withoutEmptyBlocks ++ g.withoutEmptyBlocks := by
  induction f with
  | nil => rfl
  | leaf a rest ih => simp [ih]
  | node k c rest _ ih =>
      by_cases h : k = .block ∧ c = .nil
      · obtain ⟨rfl, rfl⟩ := h
        exact ih
      · simp [withoutEmptyBlocks_node h, ih]

theorem withoutEmptyBodies_append (f g : Forest α) :
    (f ++ g).withoutEmptyBodies = f.withoutEmptyBodies ++ g.withoutEmptyBodies := by
  induction f with
  | nil => rfl
  | leaf a rest ih => simp [withoutEmptyBodies, ih]
  | node k c rest _ ih => simp [withoutEmptyBodies, ih]

theorem leaves_withoutEmptyBlocks (f : Forest α) : f.withoutEmptyBlocks.leaves = f.leaves := by
  induction f with
  | nil => rfl
  | leaf a rest ih => simp [ih]
  | node k c rest _ ih =>
      by_cases h : k = .block ∧ c = .nil
      · obtain ⟨rfl, rfl⟩ := h
        exact ih
      · simp [withoutEmptyBlocks_node h, ih]

theorem leaves_withoutEmptyBodies (f : Forest α) : f.withoutEmptyBodies.leaves = f.leaves := by
  induction f with
  | nil => rfl
  | leaf a rest ih => simp [withoutEmptyBodies, ih]
  | node k c rest _ ih =>
      simp only [withoutEmptyBodies, leaves_node, ih]
      split
      · rw [leaves_withoutEmptyBlocks]
      · rfl

end Forest

end StructuredText
