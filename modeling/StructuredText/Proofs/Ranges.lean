import StructuredText.Proofs.Token.Numeral
import StructuredText.Proofs.Tokens

/-!
Ranges. Two points behind a decimal numeral are one token, whatever follows them, and so they are behind a
real literal that does not end with a point. Nowhere in a text does a real literal take the first of two
points.
-/

namespace StructuredText.Token

open Number

variable {c : Char} {cs : List Char}

/-- What is munched before two points is a token, and the points are the next one. -/
theorem lex_before_range {kind : TokenKind} {rest : List Char}
    (h : munch c (cs ++ '.' :: '.' :: rest) = (kind, cs.length)) :
    lex (c :: cs ++ '.' :: '.' :: rest) =
      ⟨kind, c :: cs, 0⟩ :: ⟨.dotDot, ['.', '.'], byteLength (c :: cs)⟩ ::
        (lex rest).map (shift (byteLength (c :: cs) + 2)) := by
  have hfirst : first 0 c (cs ++ '.' :: '.' :: rest) = ⟨kind, c :: cs, 0⟩ := by simp [first, h]
  have hafter : afterFirst c (cs ++ '.' :: '.' :: rest) = '.' :: '.' :: rest := by
    simp [afterFirst, h]
  have hrange (n : Nat) : first n '.' ('.' :: rest) = ⟨.dotDot, ['.', '.'], n⟩ := by
    simp [first, Matcher.munch_range]
  have hbehind : afterFirst '.' ('.' :: rest) = rest := by simp [afterFirst, Matcher.munch_range]
  have hstop (n : Nat) : Token.stop ⟨.dotDot, ['.', '.'], n⟩ = n + 2 := rfl
  rw [lex, List.cons_append, lexFrom_cons, hfirst, hafter, lexFrom_cons, hrange, hbehind, hstop]
  simp only [Token.stop, Nat.zero_add]
  rw [← Nat.add_zero (byteLength (c :: cs) + 2), lexFrom_add]
  rfl

theorem munch_decimal (h : IsDecimal (c :: cs)) (rest : List Char) :
    munch c (cs ++ '.' :: '.' :: rest) = (.intLiteral, cs.length) := by
  obtain ⟨d, ds, heq, hd⟩ := h.exists_digit
  obtain ⟨rfl, rfl⟩ := List.cons.inj heq
  have hliteral : literal (c :: (cs ++ '.' :: '.' :: rest)) = (false, (c :: cs).length) :=
    literal_decimal h rest
  rw [munch_digit hd, hliteral]
  rfl

theorem munch_fraction (h : decimal cs ≠ 0) : munch '.' cs = (.realLiteral, fraction cs) := by
  unfold munch
  rw [if_neg (by decide), if_neg (by decide)]
  split
  case h_13 => exact absurd rfl h
  case h_14 => rw [if_neg h]
  all_goals contradiction

theorem munch_real (h : IsReal (c :: cs)) (hlast : (c :: cs).getLast? ≠ some '.') (rest : List Char) :
    munch c (cs ++ '.' :: '.' :: rest) = (.realLiteral, cs.length) := by
  cases hd : c.isDigit with
  | true =>
      have hliteral : literal (c :: (cs ++ '.' :: '.' :: rest)) = (true, (c :: cs).length) :=
        literal_real hd h hlast rest
      rw [munch_digit hd, hliteral]
      rfl
  | false =>
      have hno {whole behind : List Char} (hwhole : IsDecimal whole) : c :: cs ≠ whole ++ behind := by
        obtain ⟨d, ds, rfl, hdigit⟩ := hwhole.exists_digit
        intro heq
        rw [(List.cons.inj heq).1, hdigit] at hd
        contradiction
      generalize hall : c :: cs = all at h
      cases h with
      | pointed hwhole => exact absurd hall (hno hwhole)
      | scaled hwhole => exact absurd hall (hno hwhole)
      | @fractional f e s hf he hs =>
          obtain ⟨rfl, rfl⟩ := List.cons.inj hall
          have hsplit : f ++ (e ++ s) ++ '.' :: '.' :: rest = f ++ (e ++ (s ++ '.' :: '.' :: rest)) := by
            simp
          have hdecimal := decimal_append hf (stops_end he hs ('.' :: rest))
          obtain ⟨d, ds, rfl, -⟩ := hf.exists_digit
          rw [hsplit, munch_fraction (hdecimal ▸ Nat.succ_ne_zero _), fraction_append (.inr hf) he hs]
          simp only [List.length_append]

/-- Before two points, a decimal numeral is an integer and a real literal that does not end with a point
is whole; the points are the next token, and the tokens of what follows are those that it has on its own,
moved on. In no text does a real literal end with a point before another one. -/
theorem ranges_kept :
    (∀ numeral rest, IsDecimal numeral → lex (numeral ++ '.' :: '.' :: rest) =
      ⟨.intLiteral, numeral, 0⟩ :: ⟨.dotDot, ['.', '.'], byteLength numeral⟩ ::
        (lex rest).map (shift (byteLength numeral + 2))) ∧
    (∀ source before t after, lex source = before ++ t :: after → t.kind = .realLiteral →
      t.chars.getLast? = some '.' →
        ∀ rest, source ≠ before.flatMap chars ++ t.chars ++ '.' :: rest) ∧
    ∀ real rest, IsReal real → real.getLast? ≠ some '.' → lex (real ++ '.' :: '.' :: rest) =
      ⟨.realLiteral, real, 0⟩ :: ⟨.dotDot, ['.', '.'], byteLength real⟩ ::
        (lex rest).map (shift (byteLength real + 2)) := by
  refine ⟨fun numeral rest h => ?_, fun source before t after h hkind hlast rest hrest => ?_,
    fun real rest h hlast => ?_⟩
  · obtain ⟨d, ds, rfl, -⟩ := h.exists_digit
    exact lex_before_range (munch_decimal h rest)
  · obtain ⟨n, c, cs, rfl, hsource, -⟩ := exists_first_of_split h
    have hafter : afterFirst c cs = '.' :: rest := afterFirst_of_append (hsource.symm.trans hrest)
    rcases Matcher.longest_cases c cs with ⟨numeral, _, -, hmunch, -⟩ | ⟨-, hends⟩
    · rw [first, hmunch] at hkind
      cases hkind
    · exact hends hkind ⟨hlast, congrArg List.head? hafter⟩
  · obtain ⟨c, cs, rfl⟩ := List.exists_cons_of_ne_nil h.ne_nil
    exact lex_before_range (munch_real h hlast rest)

/-- A numeral that ends with an underscore, and a real literal that ends with a suffix. -/
theorem ranges_kept_suffix :
    lex "1_0_...5".toList = ⟨.intLiteral, "1_0_".toList, 0⟩ :: ⟨.dotDot, ['.', '.'], 4⟩ ::
      (lex ".5".toList).map (shift 6) ∧
    lex "1.e+3L..L".toList = ⟨.realLiteral, "1.e+3L".toList, 0⟩ :: ⟨.dotDot, ['.', '.'], 6⟩ ::
      (lex ['L']).map (shift 8) := by
  obtain ⟨hnumeral, -, hreal⟩ := ranges_kept
  have hdecimal : IsDecimal "1_0_".toList := .marked rfl (.marked (d := '0') rfl .nil)
  have hone : IsDecimal ['1'] := .plain rfl .nil
  have hexponent : IsExponent "e+3".toList := .signed (.inl rfl) (.inl rfl) (.plain rfl .nil)
  have hsuffix : IsSuffix ['L'] := List.mem_cons_self
  have hpointed : IsReal "1.e+3L".toList :=
    .pointed hone (.inl rfl) (.inr hexponent) (.inr hsuffix)
  exact ⟨hnumeral _ ".5".toList hdecimal, hreal _ ['L'] hpointed (by decide)⟩

end StructuredText.Token
