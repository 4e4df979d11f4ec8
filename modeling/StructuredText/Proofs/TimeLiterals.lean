import StructuredText.Proofs.Diagnostics
import StructuredText.Proofs.Token.Contest

/-!
Time literals. What begins with `T#` is one token up to the end of the run of characters that such
literals are made of, and the token is a time literal if the run is a duration; if not, it is reported.
-/

namespace StructuredText.Token

open Duration

/-- The first token of a text that begins with `T#` or `t#` is this prefix and the longest run of
letters, digits, underscores and points behind it. It is a time literal exactly if the run is made of
amounts of consecutive units, of which only the last may have a fraction. Otherwise it is an error, and
reported as a malformed time literal. -/
theorem timeLiterals_exact {c : Char} (hc : c = 'T' ∨ c = 't') (rest : List Char) :
    ∃ t behind, lex (c :: '#' :: rest) = t :: behind ∧ t.start = 0 ∧
      t.chars = c :: '#' :: rest.takeWhile continuesDuration ∧
      (t.kind = .timeLiteral ↔ IsWellFormed (rest.takeWhile continuesDuration)) ∧
      (t.kind ≠ .timeLiteral → t.kind = .error ∧
        ⟨.lexical, "malformed time literal", t.span⟩ ∈
          (Parse.ofText (c :: '#' :: rest)).diagnostics) := by
  let run := rest.takeWhile continuesDuration
  have hmunch : munch c ('#' :: rest) =
      (if anyForm.fits run then .timeLiteral else .error, run.length + 1) := munch_time hc rest
  have hrun : rest.take run.length = run := take_runLength continuesDuration rest
  have hchars : (first 0 c ('#' :: rest)).chars = c :: '#' :: run := by simp [first, hmunch, hrun]
  have hkind : (first 0 c ('#' :: rest)).kind = if anyForm.fits run then .timeLiteral else .error := by
    simp [first, hmunch]
  have hlex : lex (c :: '#' :: rest) = first 0 c ('#' :: rest) ::
      lexFrom (first 0 c ('#' :: rest)).stop (afterFirst c ('#' :: rest)) := lexFrom_cons _ _ _
  refine ⟨_, _, hlex, rfl, hchars, ?_, fun hno => ?_⟩
  · change _ ↔ IsWellFormed run
    rw [hkind, ← matches_anyForm, ← Pattern.fits_iff]
    split <;> simp_all
  · have herror : (first 0 c ('#' :: rest)).kind = .error := by
      rw [hkind] at hno ⊢
      split at hno
      · contradiction
      · rw [if_neg ‹_›]
    have hmessage : errorMessage (first 0 c ('#' :: rest)).chars = "malformed time literal" := by
      rw [hchars]
      rcases hc with rfl | rfl <;> rfl
    refine ⟨herror, Parse.mem_diagnostics.mpr (.inl ⟨_, ?_, herror, ?_⟩)⟩
    · rw [hlex]
      exact List.mem_cons_self
    · rw [Diagnostic.ofErrorToken, hmessage]

theorem timeLiterals_exact_minutes :
    ∃ t behind, lex "t#1H30.5m; x".toList = t :: behind ∧ t.start = 0 ∧
      t.chars = "t#1H30.5m".toList ∧ t.kind = .timeLiteral := by
  obtain ⟨t, behind, hlex, hstart, hchars, hkind, -⟩ :=
    timeLiterals_exact (.inr rfl) "1H30.5m; x".toList
  exact ⟨t, behind, hlex, hstart, hchars, hkind.mpr (matches_anyForm.mp (by decide))⟩

end StructuredText.Token
