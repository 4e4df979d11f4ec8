import StructuredText.Proofs.Token.Contest
import StructuredText.Proofs.Token.Local

/-!
Cutting a text between two of its tokens. How far a token goes is decided by its own characters and, at
most, by the characters that stop it; so a text that ends where a token of it ends has the same tokens
up to there, unless a point follows.
-/

namespace StructuredText.Token

theorem word_cut {c : Char} {cs back : List Char} (h : (word c (cs ++ back)).2 ≤ cs.length) :
    word c cs = word c (cs ++ back) := by
  unfold word at h ⊢
  cases hlongest : Keyword.longest? (c :: (cs ++ back)) with
  | none =>
      rw [hlongest] at h
      rw [Keyword.longest?_eq_none_cut hlongest]
      simp only at h ⊢
      split at h
      · rename_i hname
        rw [if_pos hname, if_pos hname, local_runLength continuesWord cs back h]
      · rename_i hname
        rw [if_neg hname, if_neg hname]
        have hreach := Keyword.local_reach (c :: cs) back
        rw [List.cons_append, List.length_cons] at hreach
        simp only at h
        rw [hreach (by omega)]
  | some found =>
      obtain ⟨spelling, kind⟩ := found
      rw [hlongest] at h
      simp only at h ⊢
      -- The keyword lies before the cut, and the name too if it is the longer one.
      have hspelling : spelling.length ≤ (c :: cs).length := by
        rw [List.length_cons]
        split at h
        · rename_i hname
          simp only [Bool.and_eq_true, decide_eq_true_eq] at hname
          omega
        · omega
      rw [Keyword.longest?_cut hlongest hspelling]
      by_cases hstart : startsWord c
      · have hrun : runLength continuesWord (cs ++ back) ≤ cs.length := by
          rw [List.length_cons] at hspelling
          split at h
          · exact h
          · rename_i hname
            simp only [hstart, Bool.true_and, decide_eq_true_eq] at hname
            omega
        rw [local_runLength continuesWord cs back hrun]
      · simp [hstart]

theorem delimited_cut {kind : TokenKind} {close : Char} {givesUp : Char → Bool}
    {cs back : List Char} (h : (delimited kind close givesUp (cs ++ back)).2 ≤ cs.length) :
    delimited kind close givesUp cs = delimited kind close givesUp (cs ++ back) := by
  unfold delimited at h ⊢
  split at h
  · rename_i hclose
    simp only at h
    have hrun := local_runLength (· ≠ close) cs back (Nat.le_of_succ_le h)
    -- The run ends before the cut, and only the closing character ends it.
    have hcontains : cs.contains close := by
      refine Decidable.byContradiction fun hnone => ?_
      have hall : runLength (· ≠ close) cs = cs.length := by
        refine runLength_eq_length fun c hc => decide_eq_true fun heq => hnone ?_
        simpa [← heq] using hc
      omega
    rw [if_pos hcontains, if_pos hclose, hrun]
  · rename_i hclose
    have hcontains : ¬cs.contains close := by
      simp only [List.contains_eq_mem, List.mem_append, decide_eq_true_eq, not_or] at hclose ⊢
      exact hclose.1
    rw [if_neg hcontains, if_neg hclose, local_runLength _ cs back h]

theorem beforeCommentEnd_cut {cs back : List Char} {n : Nat}
    (h : beforeCommentEnd (cs ++ back) = some n) (hn : n + 2 ≤ cs.length) :
    beforeCommentEnd cs = some n := by
  fun_induction beforeCommentEnd cs generalizing n with
  | case1 => simpa [beforeCommentEnd] using h
  | case2 c cs hend ih =>
      rw [List.cons_append, beforeCommentEnd] at h
      · obtain ⟨m, hm, rfl⟩ := Option.map_eq_some_iff.mp h
        rw [ih hm (Nat.le_of_succ_le_succ hn)]
        rfl
      · rintro rest rfl hrest
        cases cs with
        | nil => simp at hn
        | cons d cs =>
            cases hrest
            exact hend cs rfl rfl
  | case3 => simp at hn

theorem takeWhile_cut {p : Char → Bool} {cs back : List Char}
    (h : ((cs ++ back).takeWhile p).length ≤ cs.length) :
    (cs ++ back).takeWhile p = cs.takeWhile p := by
  rw [List.takeWhile_append] at h ⊢
  split at h
  · rename_i hall
    rw [List.length_append] at h
    have hnone : back.takeWhile p = [] := List.eq_nil_of_length_eq_zero (by omega)
    rw [if_pos hall, hnone, List.append_nil, List.IsPrefix.eq_of_length (List.takeWhile_prefix p) hall]
  · rename_i hpart
    rw [if_neg hpart]

theorem timeLiteral_cut {cs back : List Char} (h : (timeLiteral (cs ++ back)).2 ≤ cs.length + 1) :
    timeLiteral cs = timeLiteral (cs ++ back) := by
  simp only [timeLiteral, takeWhile_cut (Nat.le_of_succ_le_succ h)]

/-- What a point starts that no other point follows. -/
theorem point_cut {cs back : List Char}
    (h : (if Number.decimal (cs ++ back) = 0 then (TokenKind.dot, 0)
      else (.realLiteral, Number.fraction (cs ++ back))).2 ≤ cs.length) :
    (if Number.decimal cs = 0 then (TokenKind.dot, 0) else (.realLiteral, Number.fraction cs)) =
      if Number.decimal (cs ++ back) = 0 then (TokenKind.dot, 0)
      else (.realLiteral, Number.fraction (cs ++ back)) := by
  have hdecimal : Number.decimal (cs ++ back) ≤ cs.length := by
    split at h
    · omega
    · exact Nat.le_trans (Nat.le_add_right _ _) h
  rw [Number.local_decimal cs back hdecimal]
  split at h
  · rename_i hnone
    rw [if_pos hnone, if_pos hnone]
  · rename_i hsome
    rw [if_neg hsome, if_neg hsome, Number.local_fraction cs back h]

/-- A text of which the first token ends before some characters has the same first token without
them. -/
theorem munch_cut {c : Char} {cs back : List Char} (hback : back.head? ≠ some '.') (hne : back ≠ [])
    (h : (munch c (cs ++ back)).2 ≤ cs.length) : munch c cs = munch c (cs ++ back) := by
  unfold munch at h ⊢
  split
  · rename_i hblank
    rw [if_pos hblank] at h
    rw [local_runLength isBlank cs back h]
  · rename_i hblank
    rw [if_neg hblank] at h
    split
    · rename_i hdigit
      rw [if_pos hdigit] at h
      simp only at h ⊢
      have hliteral := @Number.literal_cut (c :: cs) back hback
      rw [List.cons_append, List.length_cons] at hliteral
      rw [hliteral (by omega)]
    · rename_i hdigit
      rw [if_neg hdigit] at h
      have hcons {n : Nat} (hn : n + 1 ≤ cs.length) : ∃ d rest, cs = d :: rest :=
        List.exists_cons_of_length_pos (Nat.lt_of_lt_of_le n.succ_pos hn)
      -- The cases are those of the whole text; only in some does the next character matter.
      split at h
      case h_1 heq =>
        obtain ⟨d, cs, rfl⟩ := hcons h
        cases heq
        simp only [local_runLength _ cs back (Nat.le_of_succ_le_succ h)]
        rfl
      case h_3 heq =>
        split at h
        · rename_i n hend
          obtain ⟨d, cs, rfl⟩ := hcons h
          cases heq
          simp only [beforeCommentEnd_cut hend (Nat.le_of_succ_le_succ h)]
        · simp only [List.length_append] at h
          have := List.length_pos_iff.mpr hne
          omega
      case h_5 =>
        rw [contest_pragmaForms] at h ⊢
        rw [contest_pragmaForms]
        exact delimited_cut h
      case h_6 =>
        rw [contest_stringForms] at h ⊢
        rw [contest_stringForms]
        exact delimited_cut h
      case h_7 heq =>
        rw [heq, contest_timeForms (.inl rfl)] at h ⊢
        obtain ⟨d, cs, rfl⟩ := hcons h
        cases heq
        exact (contest_timeForms (.inl rfl) cs).trans (timeLiteral_cut h)
      case h_8 heq =>
        rw [heq, contest_timeForms (.inr rfl)] at h ⊢
        obtain ⟨d, cs, rfl⟩ := hcons h
        cases heq
        exact (contest_timeForms (.inr rfl) cs).trans (timeLiteral_cut h)
      case h_14 hrange =>
        have hpoint : cs.head? ≠ some '.' := by
          intro hhead
          obtain ⟨rest, rfl⟩ := List.head?_eq_some_iff.mp hhead
          exact hrange _ rfl
        split
        case h_13 => exact absurd rfl hpoint
        case h_14 => exact point_cut h
        all_goals contradiction
      case h_29 =>
        split
        case h_29 => exact word_cut h
        all_goals simp_all
      -- Signs of two characters: both stand before the cut.
      case h_10 heq | h_13 heq | h_18 heq | h_20 heq | h_21 heq | h_23 heq | h_27 heq =>
        obtain ⟨d, cs, rfl⟩ := hcons h
        cases heq
        rfl
      -- Signs of one character that begin one of two.
      case h_2 hno | h_4 hno | h_11 hno | h_19 hno | h_22 hno | h_24 hno | h_28 hno =>
        cases cs with
        | nil => rfl
        | cons d cs => simp_all
      all_goals rfl

theorem first_cut {c : Char} {cs back : List Char} (hback : back.head? ≠ some '.') (hne : back ≠ [])
    (h : (munch c (cs ++ back)).2 ≤ cs.length) (start : Nat) :
    first start c (cs ++ back) = first start c cs ∧
      afterFirst c (cs ++ back) = afterFirst c cs ++ back := by
  have hsame := munch_cut hback hne h
  constructor
  · rw [first, first, hsame, List.take_append_of_le_length h]
  · rw [afterFirst, afterFirst, hsame, List.drop_append_of_le_length h]

/-- A text cut where one of its tokens ends, and not before a point. -/
theorem lexFrom_cut {start : Nat} {front back : List Char} {before after : List Token}
    (h : lexFrom start (front ++ back) = before ++ after)
    (hfront : before.flatMap Token.chars = front) (hback : back.head? ≠ some '.')
    (hne : back ≠ []) : lexFrom start front = before := by
  induction before generalizing start front with
  | nil =>
      obtain rfl : [] = front := hfront
      exact lexFrom_nil start
  | cons t before ih =>
      cases front with
      | nil =>
          obtain ⟨c, cs, rfl⟩ := List.exists_cons_of_ne_nil hne
          rw [List.nil_append, lexFrom_cons] at h
          obtain ⟨rfl, -⟩ := List.cons.inj h
          simp [first] at hfront
      | cons c cs =>
          rw [List.cons_append, lexFrom_cons] at h
          obtain ⟨rfl, htail⟩ := List.cons.inj h
          have hchars : (cs ++ back).take (munch c (cs ++ back)).2 ++ before.flatMap Token.chars =
              cs := by
            simpa [first] using hfront
          have hextent : (munch c (cs ++ back)).2 ≤ cs.length := by
            have hlength := congrArg List.length hchars
            have := List.length_pos_iff.mpr hne
            simp only [List.length_append, List.length_take] at hlength
            omega
          obtain ⟨hfirst, hrest⟩ := first_cut hback hne hextent start
          rw [hfirst, hrest] at htail
          have hafter : before.flatMap Token.chars = afterFirst c cs := by
            have hall := first_append_afterFirst start c cs
            rw [hfirst, List.flatMap_cons, ← hall] at hfront
            exact List.append_cancel_left hfront
          rw [lexFrom_cons, hfirst, ih htail hafter]

/-- No keyword begins with a point. -/
theorem munch_point (cs : List Char) : (munch '.' cs).1.opensDeclaration = false := by
  unfold munch
  rw [if_neg (by decide), if_neg (by decide)]
  split
  case h_13 => rfl
  case h_14 => split <;> rfl
  all_goals contradiction

theorem eq_nil_of_byteLength_eq_zero {cs : List Char} (h : byteLength cs = 0) : cs = [] := by
  cases cs with
  | nil => rfl
  | cons c cs =>
      have := c.utf8Size_pos
      rw [byteLength_cons] at h
      omega

/-- Two beginnings of a text that are as long as each other. -/
theorem eq_of_byteLength_eq {as bs cs ds : List Char} (h : as ++ bs = cs ++ ds)
    (hlength : byteLength as = byteLength cs) : as = cs := by
  rcases List.append_eq_append_iff.mp h with ⟨more, rfl, -⟩ | ⟨more, rfl, -⟩
  · rw [byteLength_append] at hlength
    obtain rfl := eq_nil_of_byteLength_eq_zero (by omega : byteLength more = 0)
    exact (List.append_nil as).symm
  · rw [byteLength_append] at hlength
    obtain rfl := eq_nil_of_byteLength_eq_zero (by omega : byteLength more = 0)
    exact List.append_nil cs

/-- A text cut before the keyword of a declaration. -/
theorem lex_cut {front back : List Char} {t : Token} (ht : t ∈ lex (front ++ back))
    (hstart : t.start = byteLength front) (hopens : t.kind.opensDeclaration) :
    ∃ after, lex (front ++ back) = lex front ++ t :: after := by
  obtain ⟨before, after, hlex⟩ := List.append_of_mem ht
  have hall := chars_lexFrom 0 (front ++ back)
  rw [show lexFrom 0 (front ++ back) = before ++ t :: after from hlex, List.flatMap_append] at hall
  have hfront : before.flatMap Token.chars = front := by
    refine eq_of_byteLength_eq hall ?_
    rw [← hstart, start_lexFrom hlex, Nat.zero_add]
  obtain ⟨start, c, cs, rfl⟩ := exists_first_of_mem_lexFrom ht
  have hback : back = c :: (cs.take (munch c cs).2 ++ after.flatMap Token.chars) := by
    rw [hfront] at hall
    simpa [first] using (List.append_cancel_left hall).symm
  have hpoint : back.head? ≠ some '.' := by
    rw [hback]
    rintro ⟨⟩
    simp [first, munch_point] at hopens
  have hne : back ≠ [] := hback ▸ List.cons_ne_nil _ _
  have hlexFront : lex front = before := lexFrom_cut hlex hfront hpoint hne
  exact ⟨after, hlexFront ▸ hlex⟩

end StructuredText.Token
