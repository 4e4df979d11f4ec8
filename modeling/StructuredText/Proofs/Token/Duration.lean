import Mathlib.Data.List.Forall2
import StructuredText.Proofs.Token.Pattern

/-!
Which texts the patterns of durations match: sums of amounts of consecutive units. The patterns list all
chains of units, by their first unit and then by their last one; the sums are stated without that list.
-/

namespace StructuredText.Duration

open Pattern

/-! ### Amounts -/

/-- Digits, one at least. -/
def IsNumber (cs : List Char) : Prop :=
  cs ≠ [] ∧ ∀ c ∈ cs, c.isDigit

/-- A unit in any letter case. -/
def Writes (unit cs : List Char) : Prop :=
  cs.map Char.toLower = unit

/-- An amount of a unit without a fraction. -/
def IsPart (unit cs : List Char) : Prop :=
  ∃ number written, IsNumber number ∧ Writes unit written ∧ cs = number ++ written

/-- Nothing, or a point and digits. -/
def IsFraction (cs : List Char) : Prop :=
  cs = [] ∨ ∃ places, IsNumber places ∧ cs = '.' :: places

/-- An amount of a unit, possibly with a fraction. -/
def IsLastPart (unit cs : List Char) : Prop :=
  ∃ number fraction written, IsNumber number ∧ IsFraction fraction ∧ Writes unit written ∧
    cs = number ++ (fraction ++ written)

/-- Amounts of some units, one for each in order, of which only the last one may have a fraction. -/
def IsSum (larger : List (List Char)) (last cs : List Char) : Prop :=
  ∃ parts part, List.Forall₂ IsPart larger parts ∧ IsLastPart last part ∧ cs = parts.flatten ++ part

/-- Amounts of consecutive units. -/
def IsWellFormed (cs : List Char) : Prop :=
  ∃ larger last, larger ++ [last] <:+: units ∧ IsSum larger last cs

variable {unit cs : List Char}

/-! ### Parts of the patterns -/

theorem matches_digits : digits.Matches cs ↔ IsNumber cs :=
  matches_plus_one

theorem matches_written : (written unit).Matches cs ↔ Writes unit cs := by
  induction unit generalizing cs with
  | nil => simp [written, Matches, Writes]
  | cons u us ih =>
      rw [written, matches_seq_one, Writes, List.map_eq_cons_iff]
      simp only [ih, decide_eq_true_eq, Writes]

theorem matches_part : (part unit).Matches cs ↔ IsPart unit cs := by
  simp only [part, Matches, matches_digits, matches_written, IsPart]
  constructor
  · rintro ⟨number, word, rfl, hnumber, hword⟩
    exact ⟨number, word, hnumber, hword, rfl⟩
  · rintro ⟨number, word, hnumber, hword, rfl⟩
    exact ⟨number, word, rfl, hnumber, hword⟩

theorem matches_fraction :
    (optional (.seq (.char '.') digits)).Matches cs ↔ IsFraction cs := by
  rw [matches_optional, matches_seq_char]
  simp only [matches_digits, IsFraction, and_comm]

theorem matches_lastPart : (lastPart unit).Matches cs ↔ IsLastPart unit cs := by
  rw [lastPart]
  constructor
  · rintro ⟨number, _, rfl, hnumber, fraction, word, rfl, hfraction, hword⟩
    exact ⟨number, fraction, word, matches_digits.mp hnumber, matches_fraction.mp hfraction,
      matches_written.mp hword, rfl⟩
  · rintro ⟨number, fraction, word, hnumber, hfraction, hword, rfl⟩
    exact ⟨number, _, rfl, matches_digits.mpr hnumber, fraction, word, rfl,
      matches_fraction.mpr hfraction, matches_written.mpr hword⟩

/-! ### Chains -/

/-- The chains for some units are the sums of the units from the first one on. The induction is on the
units; at each of them a sum either ends or goes on with the next one. -/
theorem matches_chains {list : List (List Char)} :
    (oneOf (chains list)).Matches cs ↔
      ∃ larger last, larger ++ [last] <+: list ∧ IsSum larger last cs := by
  induction list generalizing cs with
  | nil => simp [chains, oneOf, Matches]
  | cons unit smaller ih =>
      have hchains : (oneOf (chains (unit :: smaller))).Matches cs ↔
          IsLastPart unit cs ∨
            ∃ front back, cs = front ++ back ∧ IsPart unit front ∧
              (oneOf (chains smaller)).Matches back := by
        rw [chains, oneOf]
        simp only [Matches, matches_lastPart, matches_oneOf, List.mem_map, exists_exists_and_eq_and,
          matches_part]
        refine or_congr_right ⟨?_, ?_⟩
        · rintro ⟨p, hp, front, back, hcs, hfront, hback⟩
          exact ⟨front, back, hcs, hfront, p, hp, hback⟩
        · rintro ⟨front, back, hcs, hfront, p, hp, hback⟩
          exact ⟨p, hp, front, back, hcs, hfront, hback⟩
      simp only [hchains, ih]
      constructor
      · rintro (hlast | ⟨front, back, rfl, hfront, larger, last, hbegin, parts, part, hparts, hpart, rfl⟩)
        · exact ⟨[], unit, by simp, [], cs, .nil, hlast, rfl⟩
        · exact ⟨unit :: larger, last, by simpa using hbegin, front :: parts, part,
            .cons hfront hparts, hpart, by simp⟩
      · rintro ⟨larger, last, hbegin, parts, part, hparts, hpart, rfl⟩
        cases hparts with
        | nil =>
            obtain rfl : last = unit := by simpa using hbegin
            exact .inl hpart
        | @cons _ front larger parts hfirst hparts =>
            obtain ⟨rfl, hbehind⟩ := List.cons_prefix_cons.mp hbegin
            exact .inr ⟨front, parts.flatten ++ part, by simp, hfirst, larger, last, hbehind, parts,
              part, hparts, hpart, rfl⟩

theorem matches_patterns {list : List (List Char)} :
    (oneOf (patterns list)).Matches cs ↔
      ∃ smaller, smaller <:+ list ∧ (oneOf (chains smaller)).Matches cs := by
  induction list with
  | nil => simp [patterns, chains, oneOf, Matches]
  | cons unit smaller ih =>
      rw [patterns, oneOf]
      simp only [Matches, ih]
      constructor
      · rintro (h | ⟨list, hlist, h⟩)
        · exact ⟨_, List.suffix_refl _, h⟩
        · exact ⟨list, hlist.trans (List.suffix_cons _ _), h⟩
      · rintro ⟨list, hlist, h⟩
        rcases List.suffix_cons_iff.mp hlist with rfl | hlist
        · exact .inl h
        · exact .inr ⟨list, hlist, h⟩

/-- The pattern of all durations. -/
def anyForm : Pattern :=
  oneOf (patterns units)

/-- The patterns match exactly the durations. -/
theorem matches_anyForm : anyForm.Matches cs ↔ IsWellFormed cs := by
  simp only [anyForm, matches_patterns, matches_chains, IsWellFormed, List.infix_iff_prefix_suffix]
  constructor
  · rintro ⟨smaller, hsuffix, larger, last, hbegin, hsum⟩
    exact ⟨larger, last, ⟨smaller, hbegin, hsuffix⟩, hsum⟩
  · rintro ⟨larger, last, ⟨smaller, hbegin, hsuffix⟩, hsum⟩
    exact ⟨smaller, hsuffix, larger, last, hbegin, hsum⟩

example : ¬IsWellFormed "1d3m".toList :=
  mt matches_anyForm.mpr (by decide)

/-! ### Their classes -/

/-- Besides letters of units there are only digits and the point in them. -/
theorem classes_anyForm {holds : (Char → Bool) → Prop} (hdigit : holds Char.isDigit)
    (hpoint : holds fun c => decide (c = '.'))
    (hletter : ∀ unit ∈ units, ∀ u ∈ unit, holds fun c => decide (c.toLower = u)) :
    anyForm.Classes holds := by
  have hwritten (unit : List Char) (hunit : ∀ u ∈ unit, holds fun c => decide (c.toLower = u)) :
      (written unit).Classes holds := by
    induction unit with
    | nil => trivial
    | cons u us ih =>
        obtain ⟨hu, hus⟩ := List.forall_mem_cons.mp hunit
        exact ⟨hu, ih hus⟩
  have hdigits : digits.Classes holds := ⟨hdigit, hdigit⟩
  have hchains (list : List (List Char)) (hlist : ∀ unit ∈ list, (written unit).Classes holds) :
      ∀ p ∈ chains list, p.Classes holds := by
    induction list with
    | nil => exact nofun
    | cons unit smaller ih =>
        obtain ⟨hunit, hsmaller⟩ := List.forall_mem_cons.mp hlist
        refine List.forall_mem_cons.mpr ⟨⟨hdigits, ⟨⟨hpoint, hdigits⟩, trivial⟩, hunit⟩, fun p hp => ?_⟩
        obtain ⟨q, hq, rfl⟩ := List.mem_map.mp hp
        exact ⟨⟨hdigits, hunit⟩, ih hsmaller q hq⟩
  have hpatterns (list : List (List Char)) (hlist : ∀ unit ∈ list, (written unit).Classes holds) :
      ∀ p ∈ patterns list, p.Classes holds := by
    induction list with
    | nil => exact nofun
    | cons unit smaller ih =>
        have hsmaller := (List.forall_mem_cons.mp hlist).2
        exact List.forall_mem_cons.mpr ⟨classes_oneOf.mpr (hchains _ hlist), ih hsmaller⟩
  exact classes_oneOf.mpr (hpatterns units fun unit hunit => hwritten unit (hletter unit hunit))

end StructuredText.Duration
