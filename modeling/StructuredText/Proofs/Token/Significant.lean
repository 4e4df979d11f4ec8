import StructuredText.Proofs.Token.Tiling

/-!
The significant tokens of a text, those that are no trivia. The grammar counts places by them, and the
numbers of the places are in the order of the bytes at which they lie.
-/

namespace StructuredText.Parse

def significant (tokens : List Token) : List Token :=
  tokens.filter fun t => !t.isTrivia

/-! ### Trivia in a row of tokens -/

theorem significant_append (ts us : List Token) :
    significant (ts ++ us) = significant ts ++ significant us :=
  List.filter_append ts us

theorem isTrivia_of_mem_takeWhile {ts : List Token} {t : Token}
    (h : t ∈ ts.takeWhile Token.isTrivia) : t.isTrivia :=
 List.all_eq_true.mp List.all_takeWhile t h

theorem significant_takeWhile (ts : List Token) :
    significant (ts.takeWhile Token.isTrivia) = [] := by
  rw [significant, List.filter_eq_nil_iff]
  intro t ht
  simp [isTrivia_of_mem_takeWhile ht]

theorem significant_dropWhile (ts : List Token) :
    significant (ts.dropWhile Token.isTrivia) = significant ts := by
  have h := significant_append (ts.takeWhile Token.isTrivia) (ts.dropWhile Token.isTrivia)
  rw [List.takeWhile_append_dropWhile, significant_takeWhile, List.nil_append] at h
  exact h.symm

/-! ### Places -/

variable {source : List Char}

theorem mem_lex_of_significant {t : Token} {i : Nat}
    (h : (significant (Token.lex source))[i]? = some t) :
    t ∈ Token.lex source ∧ t.isTrivia = false := by
  simpa using List.mem_filter.mp (List.mem_of_getElem? h)

/-- The byte at which a significant token starts, or the end of the text behind the last one. -/
def startOf (tokens : List Token) (size i : Nat) : Nat :=
  ((significant tokens)[i]?).elim size Token.start

/-- A significant token stops before the later ones start. -/
theorem stop_le_startOf {i j : Nat} {t : Token}
    (ht : (significant (Token.lex source))[i]? = some t) (hij : i < j)
    (hj : j ≤ (significant (Token.lex source)).length) :
    t.stop ≤ startOf (Token.lex source) (byteLength source) j := by
  obtain ⟨hi, rfl⟩ := List.getElem?_eq_some_iff.mp ht
  rcases Nat.lt_or_eq_of_le hj with hj | rfl
  · rw [startOf, List.getElem?_eq_getElem hj]
    have hpairs := (Token.tiles_lexFrom 0 source).pairwise.filter fun t => !t.isTrivia
    exact List.pairwise_iff_getElem.mp hpairs i j hi hj hij
  · rw [startOf, List.getElem?_eq_none (Nat.le_refl _)]
    exact Token.stop_le_of_mem_lex (mem_lex_of_significant ht).1

theorem startOf_lt {i j : Nat} (hij : i < j) (hj : j ≤ (significant (Token.lex source)).length) :
    startOf (Token.lex source) (byteLength source) i <
      startOf (Token.lex source) (byteLength source) j := by
  have htoken := List.getElem?_eq_getElem (Nat.lt_of_lt_of_le hij hj)
  have hfilled := Token.start_lt_stop_of_mem_lexFrom (mem_lex_of_significant htoken).1
  have hle := stop_le_startOf htoken hij hj
  rw [startOf, htoken]
  exact Nat.lt_of_lt_of_le hfilled hle

theorem startOf_le_iff {i j : Nat} (hi : i ≤ (significant (Token.lex source)).length)
    (hj : j ≤ (significant (Token.lex source)).length) :
    startOf (Token.lex source) (byteLength source) i ≤
      startOf (Token.lex source) (byteLength source) j ↔ i ≤ j := by
  constructor
  · intro hle
    refine Nat.le_of_not_lt fun hlt => ?_
    have := startOf_lt hlt hi
    omega
  · intro hle
    rcases Nat.lt_or_eq_of_le hle with hlt | rfl
    · exact Nat.le_of_lt (startOf_lt hlt hj)
    · exact Nat.le_refl _

end StructuredText.Parse
