import Mathlib.Data.List.Infix
import StructuredText.Token.Lexer

/-!
What patterns match. Reading a text character by character finds the longest match at its front, and a
contest is decided by these alone: to know the token of a text it is enough to give one match, and to see
that no other pattern has a longer one, or one as long with a higher priority.
-/

namespace StructuredText

namespace Pattern

/-- A text matches. -/
def Matches : Pattern → List Char → Prop
  | .never, _ => False
  | .empty, cs => cs = []
  | .one accepts, cs => ∃ c, cs = [c] ∧ accepts c
  | .seq first second, cs =>
    ∃ front back, cs = front ++ back ∧ first.Matches front ∧ second.Matches back
  | .either left right, cs => left.Matches cs ∨ right.Matches cs
  | .many body, cs => ∃ parts : List (List Char), cs = parts.flatten ∧ ∀ part ∈ parts, body.Matches part

variable {p q : Pattern} {c : Char} {cs front : List Char} {accepts : Char → Bool}

/-! ### What is left to match -/

theorem matchesEmpty_iff (p : Pattern) : p.matchesEmpty ↔ p.Matches [] := by
  induction p with
  | never => simp [matchesEmpty, Matches]
  | empty => simp [matchesEmpty, Matches]
  | one accepts => simp [matchesEmpty, Matches]
  | seq first second ihf ihs => simp [matchesEmpty, Matches, ihf, ihs, and_assoc]
  | either left right ihl ihr => simp [matchesEmpty, Matches, ihl, ihr]
  | many body => exact iff_of_true rfl ⟨[], rfl, nofun⟩

theorem matches_followedBy : (p.followedBy q).Matches cs ↔ (Pattern.seq p q).Matches cs := by
  unfold followedBy
  split
  · simp [Matches]
  · simp [Matches]
  · rfl

theorem matches_union : (union p q).Matches cs ↔ p.Matches cs ∨ q.Matches cs := by
  unfold union
  split
  · simp [Matches]
  · simp [Matches]
  · rfl

/-- A row of texts begins with the first one that is not empty. -/
theorem flatten_eq_cons {parts : List (List Char)} (h : parts.flatten = c :: cs) :
    ∃ part parts', (c :: part) ∈ parts ∧ parts' ⊆ parts ∧ cs = part ++ parts'.flatten := by
  induction parts with
  | nil => cases h
  | cons part parts ih =>
      cases part with
      | nil =>
          obtain ⟨part, parts', hpart, hparts, hcs⟩ := ih h
          exact ⟨part, parts', List.mem_cons_of_mem _ hpart, List.subset_cons_of_subset _ hparts, hcs⟩
      | cons d part =>
          obtain ⟨rfl, rfl⟩ := List.cons.inj h
          exact ⟨part, parts, List.mem_cons_self, List.subset_cons_self _ _, rfl⟩

theorem matches_after (p : Pattern) (c : Char) (cs : List Char) :
    (p.after c).Matches cs ↔ p.Matches (c :: cs) := by
  induction p generalizing cs with
  | never => rfl
  | empty => simp [after, Matches]
  | one accepts =>
      by_cases hc : accepts c
      · simp [after, Matches, hc]
      · simp [after, Matches, hc]
  | seq first second ihf ihs =>
      -- The character is the first one of the front, or the front is empty.
      have hsplit : (Pattern.seq first second).Matches (c :: cs) ↔
          (∃ front back, cs = front ++ back ∧ first.Matches (c :: front) ∧ second.Matches back) ∨
            first.Matches [] ∧ second.Matches (c :: cs) := by
        constructor
        · rintro ⟨front, back, hcs, hfront, hback⟩
          cases front with
          | nil => exact .inr ⟨hfront, hcs ▸ hback⟩
          | cons d front =>
              obtain ⟨rfl, rfl⟩ := List.cons.inj hcs
              exact .inl ⟨front, back, rfl, hfront, hback⟩
        · rintro (⟨front, back, rfl, hfront, hback⟩ | ⟨hfront, hback⟩)
          · exact ⟨c :: front, back, rfl, hfront, hback⟩
          · exact ⟨[], c :: cs, rfl, hfront, hback⟩
      rw [hsplit, after, ← matchesEmpty_iff]
      split
      next h => simp only [matches_union, matches_followedBy, Matches, ihf, ihs, h, true_and]
      next h => simp only [matches_followedBy, Matches, ihf, h, Bool.false_eq_true, false_and, or_false]
  | either left right ihl ihr => rw [after, matches_union, ihl, ihr, Matches]
  | many body ih =>
      rw [after, matches_followedBy]
      simp only [Matches, ih]
      constructor
      · rintro ⟨front, back, rfl, hfront, parts, rfl, hparts⟩
        exact ⟨(c :: front) :: parts, rfl, List.forall_mem_cons.mpr ⟨hfront, hparts⟩⟩
      · rintro ⟨parts, hcs, hparts⟩
        obtain ⟨part, parts', hpart, hsubset, rfl⟩ := flatten_eq_cons hcs.symm
        exact ⟨part, _, rfl, hparts _ hpart, parts', rfl, fun other hother => hparts _ (hsubset hother)⟩

theorem not_matches_of_isNever (h : p.isNever) (cs : List Char) : ¬p.Matches cs := by
  cases p <;> simp [isNever, Matches] at h ⊢

/-- Whether a text matches, read character by character. -/
def fits : Pattern → List Char → Bool
  | p, [] => p.matchesEmpty
  | p, c :: cs => (p.after c).fits cs

theorem fits_iff (p : Pattern) (cs : List Char) : p.fits cs ↔ p.Matches cs := by
  induction cs generalizing p with
  | nil => exact matchesEmpty_iff p
  | cons c cs ih => rw [fits, ih, matches_after]

instance (p : Pattern) (cs : List Char) : Decidable (p.Matches cs) :=
  decidable_of_iff _ (fits_iff p cs)

/-! ### The longest match -/

/-- A front of a text matches, and none that is longer does. -/
structure IsLongest (p : Pattern) (cs front : List Char) : Prop where
  isPrefix : front <+: cs
  fits : p.Matches front
  longest : ∀ other, other <+: cs → p.Matches other → other.length ≤ front.length

/-- A match that is longer by one than what is left behind a character. -/
theorem IsLongest.cons (h : (p.after c).IsLongest cs front) : p.IsLongest (c :: cs) (c :: front) where
  isPrefix := List.cons_prefix_cons.mpr ⟨rfl, h.isPrefix⟩
  fits := (matches_after p c front).mp h.fits
  longest other hbegin hfits := by
    cases other with
    | nil => exact Nat.zero_le _
    | cons d other =>
        obtain ⟨rfl, hrest⟩ := List.cons_prefix_cons.mp hbegin
        exact Nat.succ_le_succ (h.longest other hrest ((matches_after p d other).mpr hfits))

/-- The empty match is the longest if nothing matches behind the first character. -/
theorem isLongest_nil (hempty : p.matchesEmpty)
    (h : ∀ other, other <+: cs → ¬(p.after c).Matches other) : p.IsLongest (c :: cs) [] where
  isPrefix := List.nil_prefix
  fits := (matchesEmpty_iff p).mp hempty
  longest other hbegin hfits := by
    cases other with
    | nil => exact Nat.le_refl _
    | cons d other =>
        obtain ⟨rfl, hrest⟩ := List.cons_prefix_cons.mp hbegin
        exact absurd ((matches_after p d other).mpr hfits) (h other hrest)

theorem not_matches_front (hempty : p.matchesEmpty = false)
    (h : ∀ other, other <+: cs → ¬(p.after c).Matches other) :
    ∀ other, other <+: c :: cs → ¬p.Matches other := by
  intro other hbegin hfits
  cases other with
  | nil => exact absurd ((matchesEmpty_iff p).mpr hfits) (by simp [hempty])
  | cons d other =>
      obtain ⟨rfl, hrest⟩ := List.cons_prefix_cons.mp hbegin
      exact h other hrest ((matches_after p d other).mpr hfits)

/-- Reading finds the longest match, or keeps what it had. -/
theorem longestFrom_spec (read : Nat) (longest : Option Nat) (p : Pattern) (cs : List Char) :
    (∃ front, p.IsLongest cs front ∧ p.longestFrom read longest cs = some (read + front.length)) ∨
    (∀ front, front <+: cs → ¬p.Matches front) ∧ p.longestFrom read longest cs = longest := by
  induction cs generalizing read longest p with
  | nil =>
      rw [longestFrom]
      cases hempty : p.matchesEmpty with
      | true =>
          refine .inl ⟨[], ⟨List.nil_prefix, (matchesEmpty_iff p).mp hempty, ?_⟩, rfl⟩
          exact fun other hbegin _ => hbegin.length_le
      | false =>
          refine .inr ⟨fun front hbegin hfits => ?_, rfl⟩
          rw [List.prefix_nil.mp hbegin, ← matchesEmpty_iff, hempty] at hfits
          cases hfits
  | cons c cs ih =>
      -- If nothing matches behind the character, the longest match is the empty one, if that matches.
      have hnone (h : ∀ other, other <+: cs → ¬(p.after c).Matches other) :
          (∃ front, p.IsLongest (c :: cs) front ∧
            (if p.matchesEmpty then some read else longest) = some (read + front.length)) ∨
          (∀ front, front <+: c :: cs → ¬p.Matches front) ∧
            (if p.matchesEmpty then some read else longest) = longest := by
        cases hempty : p.matchesEmpty with
        | true => exact .inl ⟨[], isLongest_nil hempty h, rfl⟩
        | false => exact .inr ⟨not_matches_front hempty h, rfl⟩
      rw [longestFrom]
      by_cases hnever : (p.after c).isNever
      · simp only [hnever, if_true]
        exact hnone fun other _ => not_matches_of_isNever hnever other
      · simp only [hnever, Bool.false_eq_true, if_false]
        rcases ih (read + 1) (if p.matchesEmpty then some read else longest) (p.after c) with
          ⟨front, hfront, heq⟩ | ⟨hno, heq⟩
        · refine .inl ⟨c :: front, hfront.cons, heq.trans ?_⟩
          rw [List.length_cons, Nat.add_right_comm, Nat.add_assoc]
        · rw [heq]
          exact hnone hno

theorem exists_of_longest? {n : Nat} (h : p.longest? cs = some n) :
    ∃ front, p.IsLongest cs front ∧ front.length = n := by
  rcases longestFrom_spec 0 none p cs with ⟨front, hfront, heq⟩ | ⟨-, heq⟩
  · rw [longest?, heq, Nat.zero_add] at h
    exact ⟨front, hfront, Option.some.inj h⟩
  · rw [longest?, heq] at h
    cases h

theorem IsLongest.longest? (h : p.IsLongest cs front) : p.longest? cs = some front.length := by
  rcases longestFrom_spec 0 none p cs with ⟨other, hother, heq⟩ | ⟨hno, -⟩
  · rw [Pattern.longest?, heq, Nat.zero_add]
    exact congrArg some (Nat.le_antisymm (h.longest other hother.isPrefix hother.fits)
      (hother.longest front h.isPrefix h.fits))
  · exact absurd h.fits (hno front h.isPrefix)

/-! ### Patterns that are made of a few parts -/

theorem matches_char : (char c).Matches cs ↔ cs = [c] := by
  simp [char, Matches]

theorem matches_seq_one : (Pattern.seq (.one accepts) p).Matches cs ↔
    ∃ c back, cs = c :: back ∧ accepts c ∧ p.Matches back := by
  constructor
  · rintro ⟨_, back, rfl, ⟨c, rfl, hc⟩, hback⟩
    exact ⟨c, back, rfl, hc, hback⟩
  · rintro ⟨c, back, rfl, hc, hback⟩
    exact ⟨[c], back, rfl, ⟨c, rfl, hc⟩, hback⟩

theorem matches_seq_char :
    (Pattern.seq (char c) p).Matches cs ↔ ∃ back, cs = c :: back ∧ p.Matches back := by
  rw [char, matches_seq_one]
  constructor
  · rintro ⟨d, back, rfl, hd, hback⟩
    exact ⟨back, congrArg (· :: back) (of_decide_eq_true hd), hback⟩
  · rintro ⟨back, rfl, hback⟩
    exact ⟨c, back, rfl, decide_eq_true rfl, hback⟩

theorem matches_many_one : (Pattern.many (.one accepts)).Matches cs ↔ ∀ c ∈ cs, accepts c := by
  constructor
  · rintro ⟨parts, rfl, hparts⟩ c hc
    obtain ⟨part, hpart, hc⟩ := List.mem_flatten.mp hc
    obtain ⟨d, rfl, hd⟩ := hparts part hpart
    rwa [List.mem_singleton.mp hc]
  · intro h
    refine ⟨cs.map fun c => [c], (List.flatMap_singleton' cs).symm, fun part hpart => ?_⟩
    obtain ⟨c, hc, rfl⟩ := List.mem_map.mp hpart
    exact ⟨c, rfl, h c hc⟩

theorem matches_plus_one :
    (plus (.one accepts)).Matches cs ↔ cs ≠ [] ∧ ∀ c ∈ cs, accepts c := by
  rw [plus, matches_seq_one]
  constructor
  · rintro ⟨c, back, rfl, hc, hback⟩
    exact ⟨List.cons_ne_nil _ _, List.forall_mem_cons.mpr ⟨hc, matches_many_one.mp hback⟩⟩
  · rintro ⟨hne, h⟩
    obtain ⟨c, back, rfl⟩ := List.exists_cons_of_ne_nil hne
    obtain ⟨hc, hback⟩ := List.forall_mem_cons.mp h
    exact ⟨c, back, rfl, hc, matches_many_one.mpr hback⟩

theorem matches_optional : (optional p).Matches cs ↔ cs = [] ∨ p.Matches cs :=
  or_comm

theorem matches_oneOf {ps : List Pattern} : (oneOf ps).Matches cs ↔ ∃ p ∈ ps, p.Matches cs := by
  induction ps with
  | nil => simp [oneOf, Matches]
  | cons p ps ih => simp [oneOf, Matches, ih]

/-! ### What holds of all classes of a pattern -/

variable {holds : (Char → Bool) → Prop}

/-- All classes that a pattern asks for. -/
def Classes (holds : (Char → Bool) → Prop) : Pattern → Prop
  | .never | .empty => True
  | .one accepts => holds accepts
  | .seq first second => first.Classes holds ∧ second.Classes holds
  | .either left right => left.Classes holds ∧ right.Classes holds
  | .many body => body.Classes holds

theorem Classes.followedBy (hp : p.Classes holds) (hq : q.Classes holds) :
    (p.followedBy q).Classes holds := by
  unfold Pattern.followedBy
  split
  · trivial
  · exact hq
  · exact ⟨hp, hq⟩

theorem Classes.union (hp : p.Classes holds) (hq : q.Classes holds) : (p.union q).Classes holds := by
  unfold Pattern.union
  split
  · exact hq
  · exact hp
  · exact ⟨hp, hq⟩

theorem Classes.after (h : p.Classes holds) (c : Char) : (p.after c).Classes holds := by
  induction p with
  | never => trivial
  | empty => trivial
  | one accepts =>
      rw [Pattern.after]
      split <;> trivial
  | seq first second ihf ihs =>
      rw [Pattern.after]
      split
      · exact .union (.followedBy (ihf h.1) h.2) (ihs h.2)
      · exact .followedBy (ihf h.1) h.2
  | either left right ihl ihr => exact .union (ihl h.1) (ihr h.2)
  | many body ih => exact .followedBy (ih h) h

theorem classes_oneOf {ps : List Pattern} : (oneOf ps).Classes holds ↔ ∀ p ∈ ps, p.Classes holds := by
  induction ps with
  | nil => simp [oneOf, Classes]
  | cons p ps ih => simp [oneOf, Classes, ih]

/-- A match has only characters of a set that holds all classes. -/
theorem Classes.forall_mem {s : Char → Bool}
    (h : p.Classes fun accepts => ∀ c, accepts c → s c) (hmatch : p.Matches cs) : ∀ c ∈ cs, s c := by
  induction p generalizing cs with
  | never => cases hmatch
  | empty =>
      obtain rfl : cs = [] := hmatch
      exact nofun
  | one accepts =>
      obtain ⟨c, rfl, hc⟩ := hmatch
      simpa using h c hc
  | seq first second ihf ihs =>
      obtain ⟨front, back, rfl, hfront, hback⟩ := hmatch
      exact List.forall_mem_append.mpr ⟨ihf h.1 hfront, ihs h.2 hback⟩
  | either left right ihl ihr =>
      rcases hmatch with hleft | hright
      · exact ihl h.1 hleft
      · exact ihr h.2 hright
  | many body ih =>
      obtain ⟨parts, rfl, hparts⟩ := hmatch
      intro c hc
      obtain ⟨part, hpart, hmem⟩ := List.mem_flatten.mp hc
      exact ih h (hparts part hpart) c hmem

/-- Characters that no class tells apart may stand for each other. -/
theorem Classes.fits_map {f : Char → Char}
    (h : p.Classes fun accepts => ∀ c, accepts (f c) = accepts c) (cs : List Char) :
    p.fits (cs.map f) = p.fits cs := by
  have hafter {q : Pattern} (hq : q.Classes fun accepts => ∀ c, accepts (f c) = accepts c) (c : Char) :
      q.after (f c) = q.after c := by
    induction q with
    | never => rfl
    | empty => rfl
    | one accepts => rw [Pattern.after, Pattern.after, hq c]
    | seq first second ihf ihs => rw [Pattern.after, Pattern.after, ihf hq.1, ihs hq.2]
    | either left right ihl ihr => rw [Pattern.after, Pattern.after, ihl hq.1, ihr hq.2]
    | many body ih => rw [Pattern.after, Pattern.after, ih hq]
  induction cs generalizing p with
  | nil => rfl
  | cons c cs ih => rw [List.map_cons, fits, fits, hafter h, ih (h.after c)]

end Pattern

/-! ### Contests -/

namespace Contender

variable {l : List Contender} {w : Contender} {cs : List Char} {n : Nat}

/-- Of some contenders, one has a match of a length, no other has a longer one, and those with a match of
the same length have no higher priority. -/
structure Wins (l : List Contender) (cs : List Char) (w : Contender) (n : Nat) : Prop where
  mem : w ∈ l
  longest : w.pattern.longest? cs = some n
  best : ∀ v ∈ l, ∀ m, v.pattern.longest? cs = some m → m < n ∨ m = n ∧ v.priority ≤ w.priority

/-- A contender that joins loses or wins. -/
theorem Wins.cons (h : Wins l cs w n) {v : Contender}
    (hv : ∀ m, v.pattern.longest? cs = some m → m < n ∨ m = n ∧ v.priority ≤ w.priority) :
    Wins (v :: l) cs w n :=
  ⟨List.mem_cons_of_mem _ h.mem, h.longest, List.forall_mem_cons.mpr ⟨hv, h.best⟩⟩

theorem winner?_cases (l : List Contender) (cs : List Char) :
    (winner? l cs = none ∧ ∀ v ∈ l, v.pattern.longest? cs = none) ∨
    ∃ w n, winner? l cs = some (w, n) ∧ Wins l cs w n := by
  induction l with
  | nil => exact .inl ⟨rfl, nofun⟩
  | cons v l ih =>
      rw [winner?]
      cases hv : v.pattern.longest? cs with
      | none =>
          rcases ih with ⟨hnone, hall⟩ | ⟨w, m, hw, hwins⟩
          · exact .inl ⟨hnone, List.forall_mem_cons.mpr ⟨hv, hall⟩⟩
          · exact .inr ⟨w, m, hw, hwins.cons (by simp [hv])⟩
      | some n =>
          have hself : ∀ m, v.pattern.longest? cs = some m → m < n ∨ m = n ∧ v.priority ≤ v.priority := by
            intro m hm
            exact .inr ⟨Option.some.inj (hm.symm.trans hv), Nat.le_refl _⟩
          rcases ih with ⟨hnone, hall⟩ | ⟨w, m, hw, hwins⟩
          · rw [hnone]
            refine .inr ⟨v, n, rfl, List.mem_cons_self, hv, List.forall_mem_cons.mpr ⟨hself, ?_⟩⟩
            intro u hu k hk
            cases (hall u hu).symm.trans hk
          · rw [hw]
            dsimp only
            split
            next hbeats =>
              simp only [Bool.or_eq_true, decide_eq_true_eq, Bool.and_eq_true] at hbeats
              refine .inr ⟨v, n, rfl, List.mem_cons_self, hv, List.forall_mem_cons.mpr ⟨hself, ?_⟩⟩
              intro u hu k hk
              have := hwins.best u hu k hk
              omega
            next hloses =>
              simp only [Bool.or_eq_true, decide_eq_true_eq, Bool.and_eq_true, not_or, not_and] at hloses
              refine .inr ⟨w, m, rfl, hwins.cons fun k hk => ?_⟩
              obtain rfl := Option.some.inj (hk.symm.trans hv)
              omega

end Contender

namespace Token

open Contender

/-- The token of a contest is that of a contender, or an error. -/
theorem contest_kind_ne {l : List Contender} {other : TokenKind} (h : other ∉ .error :: l.map Contender.kind)
    (c : Char) (cs : List Char) : (contest l c cs).1 ≠ other := by
  rintro rfl
  refine h ?_
  rw [contest]
  rcases winner?_cases l (c :: cs) with ⟨hnone, -⟩ | ⟨w, n, hw, hwins⟩
  · simp [hnone]
  · rw [hw]
    exact List.mem_cons_of_mem _ (List.mem_map_of_mem hwins.mem)

/-- A contest is decided by a match, if no match of another kind is longer, or as long with a priority that
is not lower. -/
theorem contest_eq {l : List Contender} {w : Contender} {c : Char} {front rest : List Char} (hw : w ∈ l)
    (hfits : w.pattern.Matches (c :: front))
    (hbest : ∀ v ∈ l, ∀ other, other <+: c :: (front ++ rest) → v.pattern.Matches other →
      other.length < front.length + 1 ∨
        other.length = front.length + 1 ∧ (v.kind = w.kind ∨ v.priority < w.priority)) :
    contest l c (front ++ rest) = (w.kind, front.length) := by
  have hlongest : w.pattern.IsLongest (c :: (front ++ rest)) (c :: front) := by
    refine ⟨List.prefix_append (c :: front) rest, hfits, fun other hbegin hother => ?_⟩
    have := hbest w hw other hbegin hother
    rw [List.length_cons]
    omega
  rw [contest]
  rcases winner?_cases l (c :: (front ++ rest)) with ⟨-, hnone⟩ | ⟨v, n, hv, hwins⟩
  · cases (hnone w hw).symm.trans hlongest.longest?
  · obtain ⟨other, hother, rfl⟩ := Pattern.exists_of_longest? hwins.longest
    have hle := hwins.best w hw _ hlongest.longest?
    have hge := hbest v hwins.mem other hother.isPrefix hother.fits
    rw [List.length_cons] at hle
    have hlength : other.length = front.length + 1 := by omega
    have hkind : v.kind = w.kind := by
      rcases hge with hlt | ⟨-, hkind | hlt⟩
      · omega
      · exact hkind
      · omega
    simp [hv, hkind, hlength]

end Token

end StructuredText
