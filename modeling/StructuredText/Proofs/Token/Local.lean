import StructuredText.Proofs.Token.Tiling

/-!
How far the parts of a token go. A numeral, its fraction and its exponent end where their characters
do, and so do a word and a run of characters: with other characters behind them they are the same, as
long as they do not go further. The one exception is a numeral before `..`, which is no real literal
because of what follows it.
-/

namespace StructuredText

/-- The extent does not depend on what stands behind it. -/
def Token.Local (extent : List Char → Nat) : Prop :=
  ∀ cs back, extent (cs ++ back) ≤ cs.length → extent cs = extent (cs ++ back)

/-- No such character is in what the extent covers. -/
def Token.Avoids (x : Char) (extent : List Char → Nat) : Prop :=
  ∀ cs : List Char, x ∉ cs.take (extent cs)

open Token

/-- One part of a token and then another. -/
theorem Token.avoids_add {x : Char} {f g : List Char → Nat} (hf : Avoids x f) (hg : Avoids x g) :
    Avoids x fun cs => f cs + g (cs.drop (f cs)) := by
  intro cs
  rw [List.take_add, List.mem_append, not_or]
  exact ⟨hf cs, hg _⟩

/-! ### Numbers -/

namespace Number

theorem groups_digit {digit : Char → Bool} {d : Char} (hd : digit d) (cs : List Char) :
    groups digit (d :: cs) = groups digit cs + 1 := by
  cases cs <;> simp [groups, hd]

theorem groups_underscore {digit : Char → Bool} {d e : Char} (hd : digit d = false)
    (h : (d = '_' && digit e) = true) (cs : List Char) :
    groups digit (d :: e :: cs) = groups digit cs + 2 := by
  simp [groups, hd, h]

theorem local_groups (digit : Char → Bool) : Local (groups digit) := by
  intro cs back h
  fun_induction groups digit cs with
  | case1 => exact (Nat.le_zero.mp h).symm
  | case2 d hd =>
      rw [List.singleton_append, groups_digit hd, List.length_singleton] at h
      rw [List.singleton_append, groups_digit hd]
      omega
  | case3 d hd =>
      rw [Bool.not_eq_true] at hd
      cases back with
      | nil => simp [groups, hd]
      | cons e back =>
          by_cases hgroup : (d = '_' && digit e) = true
          · rw [List.singleton_append, groups_underscore hd hgroup, List.length_singleton] at h
            omega
          · simp [groups, hd, hgroup]
  | case4 d e cs hd ih =>
      rw [List.cons_append, groups_digit hd, List.length_cons] at h
      rw [List.cons_append, groups_digit hd, ih (Nat.le_of_succ_le_succ h)]
  | case5 d e cs hd hgroup ih =>
      rw [Bool.not_eq_true] at hd
      rw [List.cons_append, List.cons_append, groups_underscore hd hgroup] at h ⊢
      rw [ih (by simpa using h)]
  | case6 d e cs hd hgroup => simp [groups, hd, hgroup]

theorem local_decimal : Local decimal := by
  intro cs back h
  cases cs with
  | nil => exact (Nat.le_zero.mp h).symm
  | cons d cs =>
      by_cases hd : d.isDigit
      · simp only [decimal, List.cons_append, hd, if_true, List.length_cons] at h ⊢
        have hn : groups Char.isDigit (cs ++ back) ≤ cs.length := by
          split at h <;> omega
        rw [local_groups Char.isDigit cs back hn]
        rw [List.drop_append_of_le_length hn] at h ⊢
        cases hrest : cs.drop (groups Char.isDigit (cs ++ back)) with
        | nil =>
            have hlength := List.drop_eq_nil_iff.mp hrest
            rw [hrest, List.nil_append] at h
            split at h
            · omega
            · rename_i hback
              simp [hback]
        | cons c rest => rfl
      · simp [decimal, hd]

theorem sign_append {c : Char} (cs back : List Char) : sign (c :: cs ++ back) = sign (c :: cs) := by
  unfold sign
  split <;> simp_all

theorem sign_le (c : Char) (cs : List Char) : sign (c :: cs) ≤ (c :: cs).length := by
  unfold sign
  split <;> simp

theorem local_exponent : Local exponent := by
  intro cs back h
  cases cs with
  | nil => exact (Nat.le_zero.mp h).symm
  | cons e cs =>
      by_cases he : (e = 'e' || e = 'E') = true
      · simp only [List.cons_append, exponent, he, if_true] at h ⊢
        cases cs with
        | nil =>
            -- An exponent has two characters at least.
            rw [List.nil_append, List.length_singleton] at h
            split at h
            · rename_i hnone
              rw [List.nil_append, if_pos hnone]
              rfl
            · omega
        | cons c cs =>
            have hsign := sign_le c cs
            rw [sign_append, List.drop_append_of_le_length hsign] at h ⊢
            have hdecimal : decimal ((c :: cs).drop (sign (c :: cs)) ++ back) ≤
                ((c :: cs).drop (sign (c :: cs))).length := by
              rw [List.length_drop]
              rw [List.length_cons] at h
              split at h <;> omega
            rw [local_decimal _ _ hdecimal]
      · simp [exponent, he]

theorem local_suffix : Local suffix := by
  intro cs back h
  cases cs with
  | nil => exact (Nat.le_zero.mp h).symm
  | cons c cs => rfl

/-- One part of a literal and then another. -/
theorem local_add {f g : List Char → Nat} (hf : Local f) (hg : Local g) :
    Local fun cs => f cs + g (cs.drop (f cs)) := by
  intro cs back h
  have hle : f (cs ++ back) ≤ cs.length := Nat.le_trans (Nat.le_add_right _ _) h
  have hfirst := hf cs back hle
  simp only at h ⊢
  rw [List.drop_append_of_le_length hle] at h ⊢
  rw [hfirst, hg (cs.drop (f (cs ++ back))) back (by rw [List.length_drop]; omega)]

theorem local_scale : Local scale :=
  local_add local_exponent local_suffix

theorem local_fraction : Local fraction :=
  local_add local_decimal local_scale

theorem count_le {mark digits n : Nat} (h : based.count mark digits ≤ mark + n) : digits ≤ n := by
  unfold based.count at h
  split at h <;> omega

/-- A base with no digit behind it does not count. -/
theorem count_eq_zero {mark digits n : Nat} (h : based.count mark digits ≤ n) (hn : n ≤ mark) :
    based.count mark digits = 0 := by
  unfold based.count at h ⊢
  split at h
  · simp_all
  · omega

theorem length_lt_of_not_front (mark : List Char) {cs back rest : List Char}
    (h : cs ++ back = mark ++ rest) (hcs : ∀ cs', cs ≠ mark ++ cs') : cs.length < mark.length := by
  rcases List.append_eq_append_iff.mp h with ⟨more, rfl, -⟩ | ⟨more, rfl, -⟩
  · cases more with
    | nil => exact absurd (by simp) (hcs [])
    | cons c more => simp
  · exact absurd rfl (hcs more)

theorem local_based : Local based := by
  intro cs back h
  fun_cases based cs with
  | case1 cs =>
      have hdigits := count_le (show based.count 2 (groups isBinary (cs ++ back)) ≤ 2 + cs.length by
        rw [Nat.add_comm]; exact h)
      simp only [List.cons_append, based, local_groups isBinary cs back hdigits]
  | case2 cs =>
      have hdigits := count_le (show based.count 2 (groups isOctal (cs ++ back)) ≤ 2 + cs.length by
        rw [Nat.add_comm]; exact h)
      simp only [List.cons_append, based, local_groups isOctal cs back hdigits]
  | case3 cs =>
      have hdigits := count_le (show based.count 3 (groups isHexadecimal (cs ++ back)) ≤ 3 + cs.length by
        rw [Nat.add_comm]; exact h)
      simp only [List.cons_append, based, local_groups isHexadecimal cs back hdigits]
  | case4 cs htwo height hsixteen =>
      -- The base is not in `cs` as a whole, so the digits would be behind `cs`.
      generalize hall : cs ++ back = all at h ⊢
      fun_cases based all with
      | case1 rest =>
          have hlength := length_lt_of_not_front ['2', '#'] hall htwo
          exact (count_eq_zero h (Nat.le_of_lt hlength)).symm
      | case2 rest =>
          have hlength := length_lt_of_not_front ['8', '#'] hall height
          exact (count_eq_zero h (Nat.le_of_lt hlength)).symm
      | case3 rest =>
          have hlength := length_lt_of_not_front ['1', '6', '#'] hall hsixteen
          exact (count_eq_zero h (Nat.le_of_lt hlength)).symm
      | case4 => rfl

/-- What follows the numeral of a literal. -/
def afterNumeral (n : Nat) : List Char → Bool × Nat
  | '.' :: '.' :: _ => (false, n)
  | '.' :: rest => (true, n + 1 + fraction rest)
  | rest => if exponent rest = 0 then (false, n) else (true, n + scale rest)

theorem afterNumeral_point {n : Nat} {rest : List Char} (h : rest.head? ≠ some '.') :
    afterNumeral n ('.' :: rest) = (true, n + 1 + fraction rest) := by
  unfold afterNumeral
  split <;> simp_all

theorem afterNumeral_plain {n : Nat} {rest : List Char} (h : rest.head? ≠ some '.') :
    afterNumeral n rest = if exponent rest = 0 then (false, n) else (true, n + scale rest) := by
  unfold afterNumeral
  split <;> simp_all

theorem le_afterNumeral (n : Nat) (rest : List Char) : n ≤ (afterNumeral n rest).2 := by
  unfold afterNumeral
  split
  · exact Nat.le_refl _
  · simp only
    omega
  · split
    · exact Nat.le_refl _
    · exact Nat.le_add_right _ _

theorem afterNumeral_cut {n : Nat} {cs back : List Char} (hback : back.head? ≠ some '.')
    (h : (afterNumeral n (cs ++ back)).2 ≤ n + cs.length) :
    afterNumeral n cs = afterNumeral n (cs ++ back) := by
  by_cases hpoint : cs.head? = some '.'
  · obtain ⟨rest, rfl⟩ := List.head?_eq_some_iff.mp hpoint
    by_cases hrange : rest.head? = some '.'
    · obtain ⟨rest, rfl⟩ := List.head?_eq_some_iff.mp hrange
      rfl
    · have hrest : (rest ++ back).head? ≠ some '.' := by
        cases rest with
        | nil => exact hback
        | cons c rest => exact hrange
      rw [List.cons_append, afterNumeral_point hrest] at h ⊢
      rw [afterNumeral_point hrange, local_fraction rest back]
      rw [List.length_cons] at h
      omega
  · have hcs : (cs ++ back).head? ≠ some '.' := by
      cases cs with
      | nil => exact hback
      | cons c cs => exact hpoint
    rw [afterNumeral_plain hcs] at h ⊢
    rw [afterNumeral_plain hpoint]
    have hexponent : exponent (cs ++ back) ≤ cs.length := by
      split at h
      · omega
      · have : exponent (cs ++ back) ≤ scale (cs ++ back) := Nat.le_add_right _ _
        simp only at h
        omega
    rw [local_exponent cs back hexponent]
    split at h
    · rename_i hnone
      rw [if_pos hnone, if_pos hnone]
    · rw [local_scale cs back]
      simp only at h
      omega

theorem literal_eq (cs : List Char) :
    literal cs = if based cs ≠ 0 then (false, based cs)
      else afterNumeral (decimal cs) (cs.drop (decimal cs)) := by
  unfold literal afterNumeral
  rfl

/-- Of a literal, it has to be known that the text does not go on with a point. -/
theorem literal_cut {cs back : List Char} (hback : back.head? ≠ some '.')
    (h : (literal (cs ++ back)).2 ≤ cs.length) : literal cs = literal (cs ++ back) := by
  rw [literal_eq] at h
  rw [literal_eq, literal_eq]
  have hbased : based (cs ++ back) ≤ cs.length := by
    split at h
    · exact h
    · rename_i hnone
      omega
  rw [local_based cs back hbased]
  split at h
  · rename_i hsome
    rw [if_pos hsome, if_pos hsome]
  · rename_i hnone
    rw [if_neg hnone, if_neg hnone]
    have hdecimal : decimal (cs ++ back) ≤ cs.length :=
      Nat.le_trans (le_afterNumeral _ _) h
    rw [local_decimal cs back hdecimal]
    rw [List.drop_append_of_le_length hdecimal] at h ⊢
    refine afterNumeral_cut hback ?_
    rw [List.length_drop]
    omega

/-! ### Characters that no numeral has -/

/-- The characters of numerals, of their exponents and of their suffixes. -/
def isNumeric (c : Char) : Bool :=
  c.isAlphanum || c = '_' || c = '+' || c = '-'

section Avoids

variable {x : Char} (hx : isNumeric x = false)
include hx

theorem isDigit_of_not_isNumeric : x.isDigit = false := by
  simp only [isNumeric, Bool.or_eq_false_iff, Char.isAlphanum] at hx
  exact hx.1.1.1.2

theorem avoids_groups {digit : Char → Bool} (hdigit : digit x = false) :
    Avoids x (groups digit) := by
  intro cs
  have hne {d : Char} (hd : digit d) : x ≠ d := by
    rintro rfl
    simp [hdigit] at hd
  have hmark : x ≠ '_' := by
    rintro rfl
    exact absurd hx (by decide)
  fun_induction groups digit cs with
  | case1 => simp
  | case2 d hd => simpa using hne hd
  | case3 => simp
  | case4 d e cs hd ih => simpa using ⟨hne hd, ih⟩
  | case5 d e cs _ hgroup ih =>
      rw [Bool.and_eq_true, decide_eq_true_eq] at hgroup
      obtain ⟨rfl, he⟩ := hgroup
      simpa using ⟨hmark, hne he, ih⟩
  | case6 => simp

theorem avoids_decimal : Avoids x decimal := by
  intro cs
  have hdigit := isDigit_of_not_isNumeric hx
  have hne {d : Char} (hd : d.isDigit) : x ≠ d := by
    rintro rfl
    simp [hdigit] at hd
  have hmark : x ≠ '_' := by
    rintro rfl
    exact absurd hx (by decide)
  fun_cases decimal cs with
  | case1 => simp
  | case2 d cs hd n hhead =>
      obtain ⟨rest, hrest⟩ := List.head?_eq_some_iff.mp hhead
      have hgroups := avoids_groups hx hdigit cs
      rw [List.take_succ_cons, List.take_add, hrest]
      simpa using ⟨hne hd, hgroups, hmark⟩
  | case3 d cs hd n _ => simpa using ⟨hne hd, avoids_groups hx hdigit cs⟩
  | case4 => simp

theorem avoids_sign : Avoids x sign := by
  intro cs
  have hne {d : Char} (hd : isNumeric d) : x ≠ d := by
    rintro rfl
    simp [hx] at hd
  unfold sign
  split
  · simpa using hne (by decide)
  · simpa using hne (by decide)
  · simp

theorem avoids_exponent : Avoids x exponent := by
  intro cs
  fun_cases exponent cs with
  | case1 => simp
  | case2 => simp
  | case3 e cs he n _ =>
      have hne : x ≠ e := by
        rintro rfl
        simp only [Bool.or_eq_true, decide_eq_true_eq] at he
        rcases he with rfl | rfl
        · exact absurd hx (by decide)
        · exact absurd hx (by decide)
      have hparts := avoids_add (avoids_sign hx) (avoids_decimal hx) cs
      rw [Nat.add_comm n, List.take_succ_cons]
      simpa using ⟨hne, hparts⟩
  | case4 => simp

theorem avoids_suffix : Avoids x suffix := by
  intro cs
  fun_cases suffix cs with
  | case1 c cs hc =>
      have hne : x ≠ c := by
        rintro rfl
        simp only [Bool.or_eq_true, decide_eq_true_eq] at hc
        rcases hc with ((rfl | rfl) | rfl) | rfl
        all_goals exact absurd hx (by decide)
      simpa using hne
  | case2 => simp
  | case3 => simp

theorem avoids_scale : Avoids x scale :=
  avoids_add (avoids_exponent hx) (avoids_suffix hx)

theorem avoids_fraction : Avoids x fraction :=
  avoids_add (avoids_decimal hx) (avoids_scale hx)

end Avoids

end Number

/-! ### Words -/

namespace Keyword

theorem fits_append {word cs : List Char} (h : fits word cs) (back : List Char) :
    fits word (cs ++ back) := by
  fun_induction fits word cs with
  | case1 => simp [fits]
  | case2 => contradiction
  | case3 w ws c cs ih =>
      rw [Bool.and_eq_true] at h
      rw [List.cons_append, fits, Bool.and_eq_true]
      exact ⟨h.1, ih h.2⟩

theorem fits_cut {word cs back : List Char} (h : fits word (cs ++ back))
    (hlength : word.length ≤ cs.length) : fits word cs := by
  fun_induction fits word cs with
  | case1 => rfl
  | case2 w ws => simp at hlength
  | case3 w ws c cs ih =>
      rw [List.cons_append, fits, Bool.and_eq_true] at h
      rw [Bool.and_eq_true]
      exact ⟨h.1, ih h.2 (Nat.le_of_succ_le_succ hlength)⟩

theorem longest?_cut {cs back : List Char} {found : List Char × TokenKind}
    (h : longest? (cs ++ back) = some found) (hlength : found.1.length ≤ cs.length) :
    longest? cs = some found := by
  rw [longest?, List.find?_eq_some_iff_append] at h ⊢
  obtain ⟨hfits, before, after, hspellings, hbefore⟩ := h
  refine ⟨fits_cut hfits hlength, before, after, hspellings, fun w hw => ?_⟩
  have hno := hbefore w hw
  rw [Bool.not_eq_true'] at hno ⊢
  exact Bool.eq_false_iff.mpr fun hfits => Bool.eq_false_iff.mp hno (fits_append hfits back)

theorem longest?_eq_none_cut {cs back : List Char} (h : longest? (cs ++ back) = none) :
    longest? cs = none := by
  rw [longest?, List.find?_eq_none] at h ⊢
  exact fun w hw hfits => h w hw (fits_append hfits back)

theorem local_agreement (word : List Char) : Local (agreement word) := by
  intro cs back h
  induction word generalizing cs with
  | nil => simp [agreement]
  | cons w ws ih =>
      cases cs with
      | nil => exact (Nat.le_zero.mp h).symm
      | cons c cs =>
          simp only [List.cons_append, agreement] at h ⊢
          split at h
          · rw [ih cs (Nat.le_of_succ_le_succ h)]
          · rename_i hfold
            rw [if_neg hfold, if_neg hfold]

/-- The longest agreement with some words, a number at least. -/
def reachOf (words : List (List Char × TokenKind)) (n : Nat) (cs : List Char) : Nat :=
  words.foldl (fun n w => max n (agreement w.1 cs)) n

theorem le_reachOf (words : List (List Char × TokenKind)) (n : Nat) (cs : List Char) :
    n ≤ reachOf words n cs := by
  induction words generalizing n with
  | nil => exact Nat.le_refl n
  | cons w words ih => exact Nat.le_trans (Nat.le_max_left _ _) (ih _)

theorem local_reachOf (words : List (List Char × TokenKind)) (n : Nat) :
    Local (reachOf words n) := by
  intro cs back h
  induction words generalizing n with
  | nil => rfl
  | cons w words ih =>
      have hle : agreement w.1 (cs ++ back) ≤ cs.length :=
        Nat.le_trans (Nat.le_max_right n _) (Nat.le_trans (le_reachOf words _ _) h)
      calc reachOf (w :: words) n cs
          = reachOf words (max n (agreement w.1 cs)) cs := rfl
        _ = reachOf words (max n (agreement w.1 (cs ++ back))) cs := by
            rw [local_agreement w.1 cs back hle]
        _ = reachOf (w :: words) n (cs ++ back) := ih _ h

theorem local_reach : Local reach :=
  local_reachOf spellings 0

end Keyword

namespace Token

theorem local_runLength (p : Char → Bool) : Local (runLength p) := by
  intro cs back h
  rw [runLength, List.takeWhile_append] at h
  rw [runLength, runLength, List.takeWhile_append]
  split at h
  · rename_i hall
    rw [if_pos hall]
    simp only [List.length_append] at h ⊢
    omega
  · rename_i hpart
    rw [if_neg hpart]

theorem runLength_eq_length {p : Char → Bool} {cs : List Char} (h : ∀ c ∈ cs, p c) :
    runLength p cs = cs.length := by
  rw [runLength, ← List.append_nil cs, List.takeWhile_append_of_pos h, List.takeWhile_nil]

end Token

end StructuredText
