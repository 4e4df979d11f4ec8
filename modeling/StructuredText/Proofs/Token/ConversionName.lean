import StructuredText.Token.ConversionName

/-!
The names of conversions are the texts of the form `SOURCE_TO_TARGET`. Cutting at the first `_TO_` finds
the two types, since neither has an underscore.
-/

namespace StructuredText.ConversionName

/-- Two words of capital letters with `_TO_` between them. -/
def HasForm (cs : List Char) : Prop :=
  ∃ before after, cs = before ++ ['_', 'T', 'O', '_'] ++ after ∧ isCapitals before ∧ isCapitals after

theorem eq_of_split? {cs before after : List Char} (h : split? cs = some (before, after)) :
    cs = before ++ ['_', 'T', 'O', '_'] ++ after := by
  fun_induction split? cs generalizing before with
  | case1 cs =>
      obtain ⟨rfl, rfl⟩ := Prod.mk.inj (Option.some.inj h)
      rfl
  | case2 c cs _ ih =>
      obtain ⟨⟨first, rest⟩, hsplit, heq⟩ := Option.map_eq_some_iff.mp h
      obtain ⟨rfl, rfl⟩ := Prod.mk.inj heq
      simp [ih hsplit]
  | case3 => simp at h

theorem split?_of_capitals {before : List Char} (h : before.all Char.isUpper) (after : List Char) :
    split? (before ++ ['_', 'T', 'O', '_'] ++ after) = some (before, after) := by
  induction before with
  | nil => rfl
  | cons c cs ih =>
      simp only [List.all_cons, Bool.and_eq_true] at h
      -- A capital letter is no underscore, so the text is not cut at it.
      have hc : c ≠ '_' := by
        rintro rfl
        exact absurd h.1 (by decide)
      have hih := ih h.2
      rw [List.cons_append, List.cons_append, split?, hih]
      · rfl
      · rintro rest rfl
        contradiction

theorem isConversion_iff {cs : List Char} : isConversion cs ↔ HasForm cs := by
  simp only [isConversion, Option.any_eq_true, Bool.and_eq_true]
  constructor
  · rintro ⟨⟨before, after⟩, hsplit, hbefore, hafter⟩
    exact ⟨before, after, eq_of_split? hsplit, hbefore, hafter⟩
  · rintro ⟨before, after, rfl, hbefore, hafter⟩
    have hcapitals : before.all Char.isUpper := by
      simp only [isCapitals, Bool.and_eq_true] at hbefore
      exact hbefore.2
    exact ⟨(before, after), split?_of_capitals hcapitals after, hbefore, hafter⟩

instance (cs : List Char) : Decidable (HasForm cs) :=
  decidable_of_iff _ isConversion_iff

end StructuredText.ConversionName
