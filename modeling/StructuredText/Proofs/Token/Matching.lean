import StructuredText.Proofs.Token.Local
import StructuredText.Token.Matcher

/-!
The matcher gives the tokens of the text. What it has given and what it holds back always belong to one
row of tokens, that of the text that was ahead: this is so because only a numeral before `..` ends with
a point, and then the two points are the next token.
-/

namespace StructuredText

/-! ### Numerals and points -/

namespace Number

theorem literal_pos {c : Char} (hdigit : c.isDigit) (cs : List Char) :
    0 < (literal (c :: cs)).2 := by
  have hdecimal : 0 < decimal (c :: cs) := by
    simp only [decimal, hdigit, if_true]
    split <;> omega
  rw [literal_eq]
  split
  · omega
  · exact Nat.lt_of_lt_of_le hdecimal (le_afterNumeral _ _)

/-- The numeral before something else. -/
theorem length_numeral {cs : List Char} (h : cs.drop (decimal cs) ≠ []) :
    (cs.take (decimal cs)).length = decimal cs := by
  have hlt : decimal cs < cs.length := Nat.lt_of_not_le fun hle => h (List.drop_eq_nil_of_le hle)
  exact List.length_take_of_le (Nat.le_of_lt hlt)

/-- A match of an extent ends with the first of two points. -/
def EndsInRange (cs : List Char) (extent : Nat) : Prop :=
  (cs.take extent).getLast? = some '.' ∧ (cs.drop extent).head? = some '.'

/-- What ends with a part that has no point. -/
theorem not_endsInRange {extent : List Char → Nat} (front : List Char) (h : Token.Avoids '.' extent)
    {rest : List Char} (hpos : extent rest ≠ 0) (hrest : rest ≠ []) :
    ¬EndsInRange (front ++ rest) (front.length + extent rest) := by
  rintro ⟨hlast, -⟩
  have hne : rest.take (extent rest) ≠ [] := by simp [hpos, hrest]
  rw [List.take_length_add_append, List.getLast?_append, List.getLast?_eq_some_getLast hne,
    Option.some_or] at hlast
  exact h rest (Option.some.inj hlast ▸ List.getLast_mem hne)

/-- A literal is the longest match, but for a numeral before `..`; and only there a real match ends with
the first of two points. -/
theorem longest_cases (cs : List Char) :
    (∃ rest, cs.drop (decimal cs) = '.' :: '.' :: rest ∧ literal cs = (false, decimal cs) ∧
      longest cs = (true, decimal cs + 1)) ∨
    longest cs = literal cs ∧ ((literal cs).1 → ¬EndsInRange cs (literal cs).2) := by
  unfold longest literal
  by_cases hbased : based cs = 0
  · simp only [hbased, ne_eq, not_true_eq_false, if_false]
    have hlength := @length_numeral cs
    generalize hrest : cs.drop (decimal cs) = behind at hlength
    have hfront : cs = cs.take (decimal cs) ++ behind := by
      rw [← hrest, List.take_append_drop]
    split
    · rename_i rest
      exact Or.inl ⟨rest, rfl, rfl, by simp [fraction, decimal, scale, exponent, suffix]⟩
    · rename_i rest hno
      refine Or.inr ⟨rfl, fun _ hends => ?_⟩
      by_cases hfraction : fraction rest = 0
      · have hhead := hends.2
        simp only [hfraction, Nat.add_zero] at hhead
        rw [← List.drop_drop, hrest, List.drop_one, List.tail_cons] at hhead
        obtain ⟨rest, rfl⟩ := List.head?_eq_some_iff.mp hhead
        exact hno rest rfl
      · have hne : rest ≠ [] := by
          rintro rfl
          exact hfraction rfl
        refine not_endsInRange (cs.take (decimal cs) ++ ['.']) (avoids_fraction (by decide)) hfraction hne ?_
        simpa [hlength, ← hfront] using hends
    · rename_i hpoint
      refine Or.inr ⟨?_, fun hreal hends => ?_⟩
      · split
        case h_1 => exact absurd rfl (hpoint _)
        case h_2 => rfl
      split at hreal
      · contradiction
      · rename_i hexponent
        rw [if_neg hexponent] at hends
        have hne : behind ≠ [] := by
          rintro rfl
          exact hexponent rfl
        refine not_endsInRange (cs.take (decimal cs)) (avoids_scale (by decide)) ?_ hne ?_
        · simp only [scale]
          omega
        · simpa [hlength hne, ← hfront] using hends
  · exact Or.inr (by simp [hbased])

end Number

/-! ### Real literals -/

namespace Token

/-- A token that starts with a digit is a literal. -/
theorem munch_digit {c : Char} (hdigit : c.isDigit) (cs : List Char) :
    munch c cs = (if (Number.literal (c :: cs)).1 then .realLiteral else .intLiteral,
      (Number.literal (c :: cs)).2 - 1) := by
  have hblank : isBlank c = false := isBlank_eq_false hdigit (by decide)
  unfold munch
  simp [hblank, hdigit]

/-- A real literal that starts with no digit starts with a point. -/
theorem munch_realLiteral {c : Char} {cs : List Char} (hdigit : c.isDigit = false)
    (h : (munch c cs).1 = .realLiteral) :
    c = '.' ∧ Number.decimal cs ≠ 0 ∧ (munch c cs).2 = Number.fraction cs := by
  unfold munch at h ⊢
  split at h
  · cases h
  · rename_i hblank
    rw [if_neg (by simp [hdigit])] at h
    rw [if_neg hblank, if_neg (by simp [hdigit])]
    split at h
    case h_3 => split at h <;> cases h
    case h_5 | h_6 | h_7 | h_8 => exact absurd h (contest_kind_ne (by decide) _ _)
    case h_14 =>
      split at h
      · cases h
      · rename_i hdecimal
        exact ⟨rfl, hdecimal, by rw [if_neg hdecimal]⟩
    case h_29 => exact absurd h (word_kind_ne (by decide) _ _)
    all_goals cases h

end Token

/-! ### Matches and tokens -/

namespace Matcher

open Token

/-- The longest match is the next token, but for a numeral before `..`; and only there it ends with the
first of two points. -/
theorem longest_cases (c : Char) (cs : List Char) :
    (∃ numeral rest, c :: cs = numeral ++ '.' :: '.' :: rest ∧
      munch c cs = (.intLiteral, numeral.length - 1) ∧
      longest c cs = (.realLiteral, numeral.length)) ∨
    longest c cs = munch c cs ∧
      ((munch c cs).1 = .realLiteral → ¬Number.EndsInRange (c :: cs) ((munch c cs).2 + 1)) := by
  cases hdigit : c.isDigit with
  | false =>
      refine Or.inr ⟨by simp [longest, hdigit], fun hreal => ?_⟩
      obtain ⟨rfl, hdecimal, hextent⟩ := munch_realLiteral hdigit hreal
      have hne : cs ≠ [] := by
        rintro rfl
        exact hdecimal rfl
      have hpos : Number.fraction cs ≠ 0 := by
        simp only [Number.fraction]
        omega
      rw [hextent, Nat.add_comm]
      exact Number.not_endsInRange ['.'] (Number.avoids_fraction (by decide)) hpos hne
  | true =>
      have hlongest : longest c cs =
          (if (Number.longest (c :: cs)).1 then .realLiteral else .intLiteral,
            (Number.longest (c :: cs)).2 - 1) := by
        simp [longest, hdigit]
      rw [munch_digit hdigit, hlongest]
      rcases Number.longest_cases (c :: cs) with ⟨rest, hrest, hliteral, hreal⟩ | ⟨hsame, hends⟩
      · have hlength := Number.length_numeral (hrest ▸ List.cons_ne_nil _ _)
        refine Or.inl ⟨(c :: cs).take (Number.decimal (c :: cs)), rest, ?_, ?_, ?_⟩
        · rw [← hrest, List.take_append_drop]
        · simp [hliteral, hlength]
        · simp [hreal, hlength]
      · have hpos : 0 < (Number.literal (c :: cs)).2 := Number.literal_pos hdigit cs
        refine Or.inr ⟨by rw [hsame], fun hkind => ?_⟩
        rw [Nat.sub_add_cancel hpos]
        refine hends (Decidable.byContradiction fun hint => ?_)
        simp [hint] at hkind

/-- The tokens to come: those held back, and those of the text ahead. -/
def remaining (m : Matcher) : List Token :=
  m.waiting ++ lexFrom m.start m.rest

@[simp] theorem remaining_ofText (source : List Char) : (ofText source).remaining = lex source := rfl

theorem munch_range (rest : List Char) : munch '.' ('.' :: rest) = (.dotDot, 1) := by
  simp [munch, isBlank]

/-- A match gives the first token of the text, and leaves the tokens behind it to come. -/
theorem next_match (c : Char) (cs : List Char) (start : Nat) :
    (next ⟨c :: cs, start, []⟩).1 = some (first start c cs) ∧
      (next ⟨c :: cs, start, []⟩).2.remaining = lexFrom (first start c cs).stop (afterFirst c cs) := by
  rcases longest_cases c cs with ⟨numeral, rest, hsplit, hmunch, hlongest⟩ | ⟨hsame, hends⟩
  · have hne : numeral ≠ [] := by
      rintro rfl
      have hkind := congrArg Prod.fst hmunch
      obtain ⟨rfl, rfl⟩ := List.cons.inj hsplit
      rw [munch_range] at hkind
      cases hkind
    obtain ⟨d, ds, rfl⟩ := List.exists_cons_of_ne_nil hne
    rw [List.cons_append] at hsplit
    obtain ⟨rfl, rfl⟩ := List.cons.inj hsplit
    have htaken : c :: (ds ++ '.' :: '.' :: rest).take (ds.length + 1) = (c :: ds) ++ ['.'] := by
      simp [List.take_length_add_append]
    have hrest : (ds ++ '.' :: '.' :: rest).drop (ds.length + 1) = '.' :: rest := by
      simp [List.drop_append]
    have hfirst : first start c (ds ++ '.' :: '.' :: rest) = ⟨.intLiteral, c :: ds, start⟩ := by
      simp [first, hmunch]
    have hafter : afterFirst c (ds ++ '.' :: '.' :: rest) = '.' :: '.' :: rest := by
      simp [afterFirst, hmunch]
    have hrange (n : Nat) : first n '.' ('.' :: rest) = ⟨.dotDot, ['.', '.'], n⟩ := by
      simp [first, munch_range]
    rw [hfirst, hafter, lexFrom_cons, hrange]
    simp only [next, hlongest, List.length_cons, htaken, hrest, splitsRange, List.getLast?_concat,
      List.dropLast_concat, List.head?_cons, List.tail_cons]
    simp [remaining, afterFirst, munch_range]
  · have hno : splitsRange (first start c cs) (afterFirst c cs) = false := by
      rw [Bool.eq_false_iff]
      intro hsplits
      simp only [splitsRange, Bool.and_eq_true, decide_eq_true_eq] at hsplits
      exact hends hsplits.1.1 ⟨hsplits.1.2, hsplits.2⟩
    simp only [next, hsame]
    rw [show (⟨(munch c cs).1, c :: cs.take (munch c cs).2, start⟩ : Token) = first start c cs from rfl,
      show cs.drop (munch c cs).2 = afterFirst c cs from rfl, hno]
    exact ⟨rfl, rfl⟩

theorem next_remaining (m : Matcher) :
    m.next.1 = m.remaining.head? ∧ m.next.2.remaining = m.remaining.tail := by
  obtain ⟨rest, start, waiting⟩ := m
  cases waiting with
  | cons t waiting => exact ⟨rfl, rfl⟩
  | nil =>
      cases rest with
      | nil => simp [next, remaining]
      | cons c cs =>
          rw [remaining, List.nil_append, lexFrom_cons]
          exact next_match c cs start

theorem remaining_after (n : Nat) (m : Matcher) : (after n m).remaining = m.remaining.drop n := by
  induction n generalizing m with
  | zero => rfl
  | succ n ih => rw [after, ih, (next_remaining m).2, List.drop_tail]

/-- A matcher gives the tokens to come one by one, and then nothing more. -/
theorem token?_eq (m : Matcher) (n : Nat) : m.token? n = m.remaining[n]? := by
  rw [token?, (next_remaining _).1, remaining_after, List.head?_drop]

end Matcher

end StructuredText
