import Mathlib.Data.List.TakeWhile
import Mathlib.Data.Nat.Digits.Defs
import StructuredText.Proofs.Token.Matching
import StructuredText.Token.Value

/-!
Integer literals and the numbers that they stand for. The lexer takes digits of one base only, at least
one of them, and these the reader of numbers understands: it fails on no literal but one that is too large.
-/

namespace StructuredText

/-! ### What literals are made of -/

/-- Digits of a class, at least one, with underscores. -/
structure IsMarked (digit : Char → Bool) (cs : List Char) : Prop where
  chars : ∀ c ∈ cs, digit c ∨ c = '_'
  exists_digit : ∃ c ∈ cs, digit c

namespace Number

variable {digit : Char → Bool} {cs : List Char}

theorem isMarked_cons {d : Char} (hd : digit d) (h : ∀ c ∈ cs, digit c ∨ c = '_') :
    IsMarked digit (d :: cs) :=
  ⟨List.forall_mem_cons.mpr ⟨.inl hd, h⟩, d, List.mem_cons_self, hd⟩

theorem groups_chars (digit : Char → Bool) (cs : List Char) :
    ∀ c ∈ cs.take (groups digit cs), digit c ∨ c = '_' := by
  fun_induction groups digit cs with
  | case1 => simp
  | case2 d hd => simp [hd]
  | case3 d hd => simp
  | case4 d e cs hd ih =>
      rw [List.take_succ_cons, List.forall_mem_cons]
      exact ⟨.inl hd, ih⟩
  | case5 d e cs _ hgroup ih =>
      rw [Bool.and_eq_true, decide_eq_true_eq] at hgroup
      rw [List.take_succ_cons, List.take_succ_cons, List.forall_mem_cons, List.forall_mem_cons]
      exact ⟨.inr hgroup.1, .inl hgroup.2, ih⟩
  | case6 => simp

theorem isMarked_groups (h : groups digit cs ≠ 0) : IsMarked digit (cs.take (groups digit cs)) := by
  refine ⟨groups_chars digit cs, ?_⟩
  fun_cases groups digit cs with
  | case1 | case3 | case6 => simp_all [groups]
  | case2 d hd | case4 d e cs hd => exact ⟨d, by simp, hd⟩
  | case5 d e cs _ hgroup =>
      rw [Bool.and_eq_true, decide_eq_true_eq] at hgroup
      exact ⟨e, by simp, hgroup.2⟩

theorem isMarked_decimal {d : Char} (hd : d.isDigit) (cs : List Char) :
    IsMarked Char.isDigit ((d :: cs).take (decimal (d :: cs))) := by
  have hgroups := groups_chars Char.isDigit cs
  simp only [decimal, hd, if_true]
  split
  next hlast =>
    rw [List.take_succ_cons, List.take_add_one, ← List.head?_drop, hlast]
    refine isMarked_cons hd (List.forall_mem_append.mpr ⟨hgroups, ?_⟩)
    simp
  next => exact isMarked_cons hd hgroups

theorem count_of_ne_zero {mark n : Nat} (h : based.count mark n ≠ 0) :
    n ≠ 0 ∧ based.count mark n = n + mark := by
  unfold based.count at h ⊢
  split at h
  next => exact absurd rfl h
  next hn => exact ⟨hn, by rw [if_neg hn, Nat.add_comm]⟩

/-- The front of a text from a digit on, as far as it is an integer literal. -/
theorem literal_cases {n : Nat} (h : literal cs = (false, n)) :
    based cs ≠ 0 ∧ n = based cs ∨ n = decimal cs := by
  rw [literal_eq] at h
  split at h
  next hbased => exact .inl ⟨hbased, (congrArg Prod.snd h).symm⟩
  next =>
    refine .inr ?_
    unfold afterNumeral at h
    split at h
    · exact (congrArg Prod.snd h).symm
    · cases h
    · split at h
      · exact (congrArg Prod.snd h).symm
      · cases h

end Number

/-! ### Digits -/

/-- The characters of a class are digits of a base. -/
def DigitsOf (base : Nat) (digit : Char → Bool) : Prop :=
  ∀ c, digit c → c.isAlphanum ∧ Integer.digit c < base ∧ c.toLower = Nat.digitChar (Integer.digit c)

namespace DigitsOf

open Number

/-- A class of ASCII characters need be tested on these only. -/
theorem of_ascii {base : Nat} {digit : Char → Bool} (hascii : ∀ c, digit c → isHexadecimal c)
    (h : ∀ n < 128, digit (Char.ofNat n) → Integer.digit (Char.ofNat n) < base) :
    DigitsOf base digit := by
  intro c hc
  have hlt : c.toNat < 128 := by
    have hhex := hascii c hc
    simp only [isHexadecimal, Char.isDigit, Bool.or_eq_true, Bool.and_eq_true, decide_eq_true_eq,
      Char.le_def, UInt32.le_iff_toNat_le] at hhex
    change (48 ≤ c.toNat ∧ c.toNat ≤ 57 ∨ 97 ≤ c.toNat ∧ c.toNat ≤ 102) ∨
      65 ≤ c.toNat ∧ c.toNat ≤ 70 at hhex
    omega
  have hall : ∀ n < 128, isHexadecimal (Char.ofNat n) → (Char.ofNat n).isAlphanum ∧
      (Char.ofNat n).toLower = Nat.digitChar (Integer.digit (Char.ofNat n)) := by
    decide +kernel
  rw [← Char.ofNat_toNat c] at hc ⊢
  obtain ⟨hletter, hlower⟩ := hall c.toNat hlt (hascii _ hc)
  exact ⟨hletter, h c.toNat hlt hc, hlower⟩

theorem hexadecimal : DigitsOf 16 isHexadecimal :=
  of_ascii (fun _ hc => hc) (by decide +kernel)

theorem decimal : DigitsOf 10 Char.isDigit :=
  of_ascii (fun c hc => by simp [isHexadecimal, hc]) (by decide +kernel)

theorem octal : DigitsOf 8 isOctal := by
  refine of_ascii (fun c hc => ?_) (by decide +kernel)
  simp only [isOctal, Bool.and_eq_true, decide_eq_true_eq] at hc
  have hle : c ≤ '9' := Char.le_trans hc.2 (by decide)
  have hdigit : c.isDigit := Bool.and_eq_true_iff.mpr ⟨decide_eq_true hc.1, decide_eq_true hle⟩
  simp [isHexadecimal, hdigit]

theorem binary : DigitsOf 2 isBinary := by
  refine of_ascii (fun c hc => ?_) (by decide +kernel)
  simp only [isBinary, Bool.or_eq_true, decide_eq_true_eq] at hc
  rcases hc with rfl | rfl <;> decide

end DigitsOf

/-- Digits of a base that have some values, with underscores that do not count. -/
structure IsNumeral (base : Nat) (values : List Nat) (digits : List Char) : Prop where
  ne_nil : values ≠ []
  lt : ∀ d ∈ values, d < base
  spelled : (digits.filter (· ≠ '_')).map Char.toLower = values.map Nat.digitChar

section Numerals

variable {base : Nat} {digit : Char → Bool} {digits : List Char}

theorem IsMarked.digit_of_mem (h : IsMarked digit digits) {c : Char}
    (hc : c ∈ digits.filter (· ≠ '_')) : digit c := by
  obtain ⟨hmem, hne⟩ := List.mem_filter.mp hc
  exact (h.chars c hmem).resolve_right (of_decide_eq_true hne)

theorem IsMarked.filter_ne_nil (h : IsMarked digit digits) (hmark : digit '_' = false) :
    digits.filter (· ≠ '_') ≠ [] := by
  obtain ⟨c, hmem, hc⟩ := h.exists_digit
  have hne : c ≠ '_' := by
    rintro rfl
    rw [hmark] at hc
    cases hc
  exact List.ne_nil_of_mem (List.mem_filter.mpr ⟨hmem, decide_eq_true hne⟩)

theorem DigitsOf.not_underscore (h : DigitsOf base digit) : digit '_' = false := by
  rw [Bool.eq_false_iff]
  intro hmark
  exact absurd (h '_' hmark).1 (by decide)

theorem IsMarked.isNumeral (h : IsMarked digit digits) (hdigit : DigitsOf base digit) :
    IsNumeral base ((digits.filter (· ≠ '_')).map Integer.digit) digits where
  ne_nil := by
    simpa using h.filter_ne_nil hdigit.not_underscore
  lt := by
    rw [List.forall_mem_map]
    exact fun c hc => (hdigit c (h.digit_of_mem hc)).2.1
  spelled := by
    rw [List.map_map]
    exact List.map_congr_left fun c hc => (hdigit c (h.digit_of_mem hc)).2.2

end Numerals

/-! ### Reading numbers -/

namespace Integer

variable {base bound n : Nat} {cs : List Char} {c : Char}

theorem next?_of_digit (hc : c.isAlphanum ∧ digit c < base) :
    next? base bound n c = if base * n + digit c < bound then some (base * n + digit c) else none := by
  simp [next?, digit?, hc.1, hc.2]

theorem le_foldl (hbase : 0 < base) (ds : List Nat) (n : Nat) :
    n ≤ ds.foldl (fun n d => base * n + d) n := by
  induction ds generalizing n with
  | nil => exact Nat.le_refl n
  | cons d ds ih =>
      have hstep : n ≤ base * n := Nat.le_mul_of_pos_left n hbase
      exact Nat.le_trans (by omega) (ih (base * n + d))

/-- Once a first part is too large, the whole number is. -/
theorem foldlM_next? (hbase : 0 < base) (h : ∀ c ∈ cs, c.isAlphanum ∧ digit c < base) (hn : n < bound) :
    cs.foldlM (next? base bound) n =
      let m := (cs.map digit).foldl (fun n d => base * n + d) n
      if m < bound then some m else none := by
  induction cs generalizing n with
  | nil => simp [hn]
  | cons c cs ih =>
      obtain ⟨hc, hrest⟩ := List.forall_mem_cons.mp h
      rw [List.foldlM_cons, next?_of_digit hc, List.map_cons, List.foldl_cons]
      split
      next hlt => exact ih hrest hlt
      next hlarge =>
        have hle := le_foldl hbase (cs.map digit) (base * n + digit c)
        exact (if_neg (by omega)).symm

theorem ofDigits_reverse (base : Nat) (ds : List Nat) :
    Nat.ofDigits base ds.reverse = ds.foldl (fun n d => base * n + d) 0 := by
  rw [Nat.ofDigits_eq_foldr, List.foldr_reverse]
  refine congrArg (fun f => ds.foldl f 0) (funext fun n => funext fun d => ?_)
  simp [Nat.add_comm]

/-- The number of a text of digits, unless it is too large. -/
theorem parse?_of_digits (hbound : 0 < bound) (hne : cs ≠ [])
    (h : ∀ c ∈ cs, c.isAlphanum ∧ digit c < base) :
    parse? base bound cs =
      let n := Nat.ofDigits base (cs.map digit).reverse
      if n < bound then some n else none := by
  obtain ⟨c, rest, rfl⟩ := List.exists_cons_of_ne_nil hne
  obtain ⟨hletter, hlt⟩ := h c List.mem_cons_self
  have hunsigned : unsigned (c :: rest) = c :: rest := by
    unfold unsigned
    split
    next heq =>
      obtain rfl := (List.cons.inj heq).1
      exact absurd hletter (by decide)
    next => rfl
  rw [parse?, hunsigned, ofDigits_reverse]
  exact foldlM_next? (Nat.zero_lt_of_lt hlt) h hbound

end Integer

/-! ### Tokens -/

/-- How an integer is written in a base, given the text of its digits. -/
inductive IsWritten : Nat → List Char → List Char → Prop
  | decimal {digits : List Char} : '#' ∉ digits → IsWritten 10 digits digits
  | binary {digits : List Char} : IsWritten 2 digits ("2#".toList ++ digits)
  | octal {digits : List Char} : IsWritten 8 digits ("8#".toList ++ digits)
  | hexadecimal {digits : List Char} : IsWritten 16 digits ("16#".toList ++ digits)

theorem IsWritten.split? {base : Nat} {digits cs : List Char} (h : IsWritten base digits cs) :
    Integer.split? cs = some (base, digits) := by
  cases h with
  | decimal hmark =>
      have hnone : digits.dropWhile (· ≠ '#') = [] := by
        refine List.dropWhile_eq_nil_iff.mpr fun c hc => decide_eq_true ?_
        rintro rfl
        exact hmark hc
      rw [Integer.split?, hnone]
  | binary | octal | hexadecimal => rfl

namespace Token

theorem isDigit_of_munch {c : Char} {cs : List Char} (h : (munch c cs).1 = .intLiteral) :
    c.isDigit := by
  by_contra hdigit
  unfold munch at h
  split at h
  · cases h
  · split at h
    case h_3 => split at h <;> cases h
    case h_5 | h_6 | h_7 | h_8 => exact absurd h (contest_kind_ne (by decide) _ _)
    case h_14 => split at h <;> cases h
    case h_29 => exact absurd h (word_kind_ne (by decide) _ _)
    all_goals cases h

/-- An integer literal is an integer at the front of a text that begins with a digit. -/
theorem exists_literal {start : Nat} {cs : List Char} {t : Token} (ht : t ∈ lexFrom start cs)
    (hkind : t.kind = .intLiteral) :
    ∃ c ds, c.isDigit ∧ (Number.literal (c :: ds)).1 = false ∧
      t.chars = (c :: ds).take (Number.literal (c :: ds)).2 := by
  obtain ⟨n, c, ds, rfl⟩ := exists_first_of_mem_lexFrom ht
  have hdigit : c.isDigit := isDigit_of_munch hkind
  refine ⟨c, ds, hdigit, ?_, ?_⟩
  · change (munch c ds).1 = .intLiteral at hkind
    rw [munch_digit hdigit] at hkind
    by_contra hreal
    simp [hreal] at hkind
  · obtain ⟨m, hm⟩ := Nat.exists_eq_add_one_of_ne_zero (Nat.ne_of_gt (Number.literal_pos hdigit ds))
    rw [first, munch_digit hdigit, hm, List.take_succ_cons]
    rfl

/-- The digits of an integer literal are of its base. -/
theorem exists_written {start : Nat} {cs : List Char} {t : Token} (ht : t ∈ lexFrom start cs)
    (hkind : t.kind = .intLiteral) :
    ∃ base digits digit, IsWritten base digits t.chars ∧ IsMarked digit digits ∧ DigitsOf base digit := by
  obtain ⟨c, ds, hdigit, hinteger, hchars⟩ := exists_literal ht hkind
  rw [hchars]
  have hliteral : Number.literal (c :: ds) = (false, (Number.literal (c :: ds)).2) :=
    Prod.ext hinteger rfl
  rcases Number.literal_cases hliteral with ⟨hbased, hlength⟩ | hlength
  · rw [hlength]
    generalize c :: ds = text at hbased
    revert hbased
    fun_cases Number.based text with
    | case1 ds =>
        intro hbased
        obtain ⟨hdigits, hlength⟩ := Number.count_of_ne_zero hbased
        exact ⟨2, _, _, hlength ▸ .binary, Number.isMarked_groups hdigits, .binary⟩
    | case2 ds =>
        intro hbased
        obtain ⟨hdigits, hlength⟩ := Number.count_of_ne_zero hbased
        exact ⟨8, _, _, hlength ▸ .octal, Number.isMarked_groups hdigits, .octal⟩
    | case3 ds =>
        intro hbased
        obtain ⟨hdigits, hlength⟩ := Number.count_of_ne_zero hbased
        exact ⟨16, _, _, hlength ▸ .hexadecimal, Number.isMarked_groups hdigits, .hexadecimal⟩
    | case4 => exact fun h => absurd rfl h
  · rw [hlength]
    have hmarked := Number.isMarked_decimal hdigit ds
    refine ⟨10, _, Char.isDigit, .decimal fun hhash => ?_, hmarked, .decimal⟩
    rcases hmarked.chars '#' hhash with hhash | hhash <;> cases hhash

/-- The value of an integer literal is that of its digits in its base. -/
theorem value?_of_intLiteral {start : Nat} {cs : List Char} {t : Token} (ht : t ∈ lexFrom start cs)
    (hkind : t.kind = .intLiteral) :
    ∃ base digits values, IsWritten base digits t.chars ∧ IsNumeral base values digits ∧
      Integer.value? t.chars =
        if Nat.ofDigits base values.reverse < 2 ^ 64 then some (Nat.ofDigits base values.reverse)
        else none := by
  obtain ⟨base, digits, digit, hwritten, hmarked, hdigit⟩ := exists_written ht hkind
  refine ⟨base, digits, _, hwritten, hmarked.isNumeral hdigit, ?_⟩
  have hdigits : ∀ c ∈ digits.filter (· ≠ '_'), c.isAlphanum ∧ Integer.digit c < base := fun c hc =>
    ⟨(hdigit c (hmarked.digit_of_mem hc)).1, (hdigit c (hmarked.digit_of_mem hc)).2.1⟩
  have hbound : Integer.bound = 2 ^ 64 := rfl
  rw [Integer.value?, hwritten.split?, hbound]
  exact Integer.parse?_of_digits (by decide) (hmarked.filter_ne_nil hdigit.not_underscore) hdigits

end Token

end StructuredText
