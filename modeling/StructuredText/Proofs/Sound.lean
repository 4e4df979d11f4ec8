import StructuredText.Proofs.Grammar.SoundDeclarations
import StructuredText.Proofs.Lossless

/-!
A text that is accepted has a derivation: nothing wrong was found in it, so its parse ended without
a fault, and what such a parse writes is a tree of the grammar over the symbols of the text.
-/

namespace StructuredText.Parse

open StructuredText.Derivation (Derives)

/-- A text is accepted if it has no error tokens and its parse ends without a fault. -/
theorem ok_iff (source : List Char) :
    (ofText source).ok ↔ (∀ t ∈ Token.lex source, t.kind ≠ .error) ∧
      (Grammar.parse (symbols source)).faults = [] := by
  rw [ok, List.isEmpty_iff, diagnostics_ofText, ← List.length_eq_zero_iff, diagnose, List.length_mergeSort,
    List.length_eq_zero_iff, List.append_eq_nil_iff, List.map_eq_nil_iff, List.filter_eq_nil_iff,
    List.map_eq_nil_iff, List.reverse_eq_nil_iff]
  simp

theorem symbols_kind_ne_error {source : List Char}
    (h : ∀ t ∈ Token.lex source, t.kind ≠ .error) : ∀ x ∈ symbols source, x.kind ≠ .error := by
  intro x hx
  obtain ⟨t, ht, rfl⟩ := List.mem_map.mp hx
  exact h t (List.mem_filter.mp ht).1

/-- The tree of an accepted text has no error node, and without trivia and pragmas it is a
derivation tree of the grammar, in which at most `nestingLimit` entries are open at a time. -/
theorem derivation_of_ok {source : List Char} (h : (ofText source).ok) :
    NodeKind.error ∉ (ofText source).children.kinds ∧
      Derivation.file (Derives nestingLimit) (ofText source).skeleton.withoutPragmas := by
  obtain ⟨hlexical, hnone⟩ := (ok_iff source).mp h
  obtain ⟨g, hshows, hleaves, hfile⟩ :=
    Grammar.sourceFile_accepts (entriesYield nestingLimit) (symbols source)
      (ParserState.start (symbols source)) .nil rfl ⟨rfl, by simp⟩ rfl
      (symbols_kind_ne_error hlexical) hnone
  have hend : (Grammar.parse (symbols source)).ahead = [] :=
    Grammar.parse_ahead_eq_nil fun _ => symbols_kind_ne_eof
  -- Both are trees over all symbols of the text, of the same outline.
  have hg : (ofText source).skeleton = g := by
    refine skeleton_eq hshows.written ?_
    change g.leaves ++ (Grammar.parse (symbols source)).ahead = symbols source at hleaves
    rwa [hend, List.append_nil] at hleaves
  rw [← kinds_skeleton, hg]
  exact ⟨hshows.errorFree, hfile⟩

theorem derivation_of_ok_conditional :
    let text := ofText "\x7bp\x7d IF NOT a THEN x := INT_TO_REAL(i) + 2 * y; END_IF;".toList
    text.ok ∧ NodeKind.error ∉ text.children.kinds ∧
      Derivation.file (Derives nestingLimit) text.skeleton.withoutPragmas :=
  ⟨by decide +kernel, derivation_of_ok (by decide +kernel)⟩

end StructuredText.Parse
