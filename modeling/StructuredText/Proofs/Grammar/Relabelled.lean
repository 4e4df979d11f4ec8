import StructuredText.Proofs.Grammar.Productions

/-!
Derivations under other labels. The grammar asks for nothing but the kind of a `;`, so what else its
label says does not matter: with other labels for its terminators, a derivation of statements still is
one.
-/

namespace StructuredText

open Shape

open StructuredText.Derivation (Derives)

/-- The symbol, without what a `;` says beside its kind. -/
def Symbol.unmarked (x : Symbol) : Symbol :=
  if x.kind = .semicolon then ⟨.semicolon, false⟩ else x

theorem Symbol.unmarked_of_ne {x : Symbol} (hx : x.kind ≠ .semicolon) : x.unmarked = x :=
  if_neg hx

@[simp] theorem Symbol.kind_unmarked (x : Symbol) : x.unmarked.kind = x.kind := by
  unfold unmarked
  split
  · exact Eq.symm ‹_›
  · rfl

namespace Forest

theorem map_unmarked {f : Forest Symbol} (h : Ahead.Unterminated f.leaves) :
    f.map Symbol.unmarked = f := by
  induction f with
  | nil => rfl
  | leaf x f ih =>
      obtain ⟨hx, hf⟩ := List.forall_mem_cons.mp h
      rw [map_leaf, Symbol.unmarked_of_ne hx, ih hf]
  | node k c f ihc ih =>
      obtain ⟨hc, hf⟩ := List.forall_mem_append.mp h
      rw [map_node, ihc hc, ih hf]

end Forest

namespace Shape

variable {p : Shape} {ps : List Shape} {k : TokenKind} {kind : NodeKind}

/-- Rows of the shape stay rows of it under other labels for their terminators. -/
def Respects (p : Shape) : Prop :=
  ∀ f, p f → ∀ g : Forest Symbol, g.map Symbol.unmarked = f.map Symbol.unmarked → p g

theorem Respects.of_unterminated (h : Spells Ahead.Unterminated p) : Respects p := by
  intro f hf g hg
  have hleaves : (g.leaves.map Symbol.unmarked).map Symbol.kind =
      (f.leaves.map Symbol.unmarked).map Symbol.kind := by
    rw [← Forest.leaves_map, hg, Forest.leaves_map]
  have hkinds : g.leaves.map Symbol.kind = f.leaves.map Symbol.kind := by
    simpa [Function.comp_def] using hleaves
  have hunterminated : Ahead.Unterminated g.leaves := by
    intro x hx hkind
    obtain ⟨y, hy, hxy⟩ := List.mem_map.mp (hkinds ▸ List.mem_map_of_mem hx)
    exact h f hf y hy (hxy.trans hkind)
  rw [Forest.map_unmarked hunterminated, Forest.map_unmarked (h f hf)] at hg
  exact hg ▸ hf

theorem Respects.token : Respects (token k) := by
  rintro _ ⟨x, hx, rfl⟩ g hg
  obtain ⟨y, g, rfl, hlabel, hrest⟩ := Forest.exists_of_map_eq_leaf hg
  obtain rfl := Forest.eq_nil_of_map_eq_nil hrest
  have hkind := congrArg Symbol.kind hlabel
  rw [Symbol.kind_unmarked, Symbol.kind_unmarked] at hkind
  exact ⟨y, hkind.trans hx, rfl⟩

theorem respects_productive : Productive Respects where
  unterminated := Respects.of_unterminated
  tree _ h := by
    rintro _ ⟨c, hc, rfl⟩ g hg
    obtain ⟨d, g, rfl, hd, hrest⟩ := Forest.exists_of_map_eq_node hg
    obtain rfl := Forest.eq_nil_of_map_eq_nil hrest
    exact ⟨d, h c hc d hd, rfl⟩
  oneOf h := by
    rintro f ⟨p, hp, hf⟩ g hg
    exact ⟨p, hp, h p hp f hf g hg⟩
  cat {ps} h := by
    induction ps with
    | nil =>
        rintro _ rfl g hg
        exact Forest.eq_nil_of_map_eq_nil hg
    | cons p ps ih =>
        obtain ⟨hp, hps⟩ := List.forall_mem_cons.mp h
        intro f hf g hg
        obtain ⟨a, b, ha, hb, rfl⟩ := cat_cons.mp hf
        rw [Forest.map_append] at hg
        obtain ⟨a', b', rfl, ha', hb'⟩ := Forest.exists_of_map_eq_append hg
        exact cat_cons.mpr ⟨a', b', hp a ha a' ha', ih hps b hb b' hb', rfl⟩
  many h := by
    intro f hf
    induction hf with
    | nil =>
        intro g hg
        rw [Forest.eq_nil_of_map_eq_nil hg]
        exact .nil
    | @cons a b ha _ ih =>
        intro g hg
        rw [Forest.map_append] at hg
        obtain ⟨a', b', rfl, ha', hb'⟩ := Forest.exists_of_map_eq_append hg
        exact .cons (h a ha a' ha') (ih b' hb')

end Shape

/-- Blocks stay blocks under other labels for their terminators. -/
theorem Derivation.block_respects (levels : Nat) : Respects (block (Derives levels)) := by
  have hblock (levels : Nat) (h : Respects (Derives levels .statement)) :
      Respects (block (Derives levels)) := by
    have hitem : Respects (item (Derives levels)) :=
      respects_productive.oneOf (by
        simpa using ⟨respects_productive.tree (by decide) Respects.token,
          respects_productive.cat (by simpa using ⟨h, Respects.token⟩)⟩)
    rintro _ ⟨c, hc, rfl⟩ g hg
    obtain ⟨d, g, rfl, hd, hrest⟩ := Forest.exists_of_map_eq_node hg
    obtain rfl := Forest.eq_nil_of_map_eq_nil hrest
    exact ⟨d, respects_productive.many hitem c hc d hd, rfl⟩
  exact hblock levels (respects_productive.derives hblock levels)

end StructuredText
