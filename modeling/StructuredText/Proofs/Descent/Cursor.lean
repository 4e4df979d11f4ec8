import StructuredText.Descent.Cursor
import StructuredText.Grammar.Lookahead
import StructuredText.Proofs.Token.Significant

/-!
What the parser sees ahead. Each walk over the tokens that are still to come finds what it looks for among
the symbols of those that are no trivia, so nothing that the parser sees depends on trivia.
-/

namespace StructuredText.Cursor

open Parse (significant)

/-- What the grammar sees of the tokens that are still to come. -/
def ahead (c : Cursor) : Ahead :=
  (significant c.rest).map Symbol.ofToken

variable {t : Token} {ts : List Token}

theorem significant_of_trivia (h : t.isTrivia) : significant (t :: ts) = significant ts :=
  List.filter_cons_of_neg (by simp [h])

theorem significant_of_not_trivia (h : t.isTrivia = false) : significant (t :: ts) = t :: significant ts :=
  List.filter_cons_of_pos (by simp [h])

/-! ### Walks -/

theorem nth_eq (n : Nat) (ts : List Token) : nth n ts = (significant ts)[n]? := by
  induction ts generalizing n with
  | nil => rfl
  | cons t ts ih =>
      cases htrivia : t.isTrivia with
      | true => cases n <;> simp [nth, htrivia, significant_of_trivia htrivia, ih]
      | false => cases n <;> simp [nth, htrivia, significant_of_not_trivia htrivia, ih]

theorem firstKind_eq (ts : List Token) :
    firstKind ts = Ahead.kindAfterPragmas ((significant ts).map Symbol.ofToken) := by
  induction ts with
  | nil => rfl
  | cons t ts ih =>
      rw [firstKind]
      cases htrivia : t.isTrivia with
      | true => rw [significant_of_trivia htrivia, ih]; rfl
      | false =>
          rw [significant_of_not_trivia htrivia, ih]
          by_cases hpragma : t.kind = .pragma
          · simp [Ahead.kindAfterPragmas, Symbol.ofToken, hpragma]
          · simp [Ahead.kindAfterPragmas, Symbol.ofToken, hpragma, Ahead.kind, Ahead.kindAt]

theorem colonAmong_eq (parens brackets : Nat) (ts : List Token) :
    colonAmong parens brackets ts =
      Ahead.colonFollows parens brackets ((significant ts).map Symbol.ofToken) := by
  induction ts generalizing parens brackets with
  | nil => rfl
  | cons t ts ih =>
      rw [colonAmong]
      cases htrivia : t.isTrivia with
      | true => rw [if_pos rfl, significant_of_trivia htrivia, ih]
      | false =>
          rw [if_neg Bool.false_ne_true, significant_of_not_trivia htrivia, List.map_cons]
          have hkind : (Symbol.ofToken t).kind = t.kind := rfl
          -- The two searches do the same at each kind of token.
          simp only [Ahead.colonFollows, hkind, ← ih]
          cases t.kind <;> simp [TokenKind.endsLabelSearch]

/-! ### What is ahead -/

variable (c : Cursor)

theorem tokenAt_eq (n : Nat) : c.tokenAt n = (significant c.rest)[n]? :=
  nth_eq n c.rest

theorem kindAt_eq (n : Nat) : c.kindAt n = c.ahead.kindAt n := by
  rw [kindAt, tokenAt_eq, Ahead.kindAt, ahead, List.getElem?_map]
  cases (significant c.rest)[n]? <;> rfl

theorem kindAfterPragmas_eq : c.kindAfterPragmas = c.ahead.kindAfterPragmas :=
  firstKind_eq c.rest

theorem hasLabelAhead_eq : c.hasLabelAhead = Ahead.colonFollows 0 0 c.ahead :=
  colonAmong_eq 0 0 c.rest

theorem left_eq : c.left = c.ahead.length := by
  rw [left, ahead, List.length_map, significant, List.countP_eq_length_filter]

/-- The current token names a conversion if its symbol says so. -/
theorem conversion_eq (h : c.kind = .ident) :
    ConversionName.isConversion c.chars = c.ahead.head?.any Symbol.conversion := by
  rw [chars, tokenAt_eq, ahead, List.head?_map, List.head?_eq_getElem?]
  rw [kind, kindAt, tokenAt_eq] at h
  cases htoken : (significant c.rest)[0]? with
  | none => rw [htoken] at h; cases h
  | some t =>
      rw [htoken] at h
      simp [Symbol.ofToken, show t.kind = .ident from h]

/-! ### Going on -/

/-- The current token is the first one that is no trivia. -/
theorem pass_eq (ts : List Token) :
    (significant ts = [] ∧ c.pass ts = { c with rest := [] }) ∨
      ∃ trivia t behind, ts = trivia ++ t :: behind ∧ significant trivia = [] ∧ t.isTrivia = false ∧
        c.pass ts = { c with rest := behind, previous := t.span } := by
  induction ts with
  | nil => exact .inl ⟨rfl, rfl⟩
  | cons t ts ih =>
      rw [pass]
      cases htrivia : t.isTrivia with
      | true =>
          rw [if_pos rfl, significant_of_trivia htrivia]
          rcases ih with hnone | ⟨trivia, u, behind, rfl, hbefore, hu, hpass⟩
          · exact .inl hnone
          · exact .inr ⟨t :: trivia, u, behind, rfl, (significant_of_trivia htrivia).trans hbefore, hu, hpass⟩
      | false => exact .inr ⟨[], t, ts, rfl, rfl, htrivia, rfl⟩

theorem kindAt_bump (n : Nat) : c.bump.kindAt n = c.kindAt (n + 1) := by
  have htokens : (significant c.bump.rest)[n]? = (significant c.rest)[n + 1]? := by
    rcases c.pass_eq c.rest with ⟨hnone, hpass⟩ | ⟨trivia, t, behind, hrest, htrivia, ht, hpass⟩
    · rw [bump, hpass, hnone]
      rfl
    · rw [bump, hpass, hrest, Parse.significant_append, htrivia, significant_of_not_trivia ht]
      rfl
  rw [kindAt, kindAt, tokenAt_eq, tokenAt_eq, htokens]

end StructuredText.Cursor
