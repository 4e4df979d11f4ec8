import StructuredText.Proofs.Token.Cut

/-!
Terminators replaced by blanks. Only comments, strings and pragmas hold blanks, and where one of them is
closed it stays so; so a token that ends before a `;` ends there before a blank too. The text has the same
tokens then, but for trivia and the terminators that are gone.
-/

namespace StructuredText

open Token

/-! ### Tokens without blanks -/

namespace Number

theorem avoids_based : Avoids ' ' based := by
  have hcount (mark : List Char) (hmark : ' ' ∉ mark) {digit : Char → Bool} (hdigit : digit ' ' = false)
      (cs : List Char) : ' ' ∉ (mark ++ cs).take (based.count mark.length (groups digit cs)) := by
    unfold based.count
    split
    · simp
    · rw [List.take_length_add_append, List.mem_append, not_or]
      exact ⟨hmark, avoids_groups (by decide) hdigit cs⟩
  intro cs
  unfold based
  split
  · exact hcount ['2', '#'] (by decide) (by decide) _
  · exact hcount ['8', '#'] (by decide) (by decide) _
  · exact hcount ['1', '6', '#'] (by decide) (by decide) _
  · simp

theorem avoids_literal : Avoids ' ' fun cs => (literal cs).2 := by
  intro cs
  have hdecimal : ' ' ∉ cs.take (decimal cs) := avoids_decimal (by decide) cs
  simp only [literal_eq]
  split
  · exact avoids_based cs
  · unfold afterNumeral
    split
    · exact hdecimal
    · rename_i rest _ hrest
      rw [Nat.add_assoc, List.take_add, hrest, Nat.add_comm 1, List.take_succ_cons]
      simpa using ⟨hdecimal, avoids_fraction (by decide) rest⟩
    · split
      · exact hdecimal
      · rw [List.take_add]
        simpa using ⟨hdecimal, avoids_scale (by decide) _⟩

end Number

namespace Keyword

theorem avoids_agreement {word : List Char} (hword : ' ' ∉ word) : Avoids ' ' (agreement word) := by
  intro cs
  induction word generalizing cs with
  | nil => simp [agreement]
  | cons w ws ih =>
      obtain ⟨hw, hws⟩ := not_or.mp (mt List.mem_cons.mpr hword)
      cases cs with
      | nil => simp
      | cons c cs =>
          rw [agreement]
          split
          · rename_i hfold
            have hc : ' ' ≠ c := by
              rintro rfl
              exact hw (by rw [← hfold]; decide)
            simpa using ⟨hc, ih hws cs⟩
          · simp

theorem blank_notMem_spellings : ∀ w ∈ spellings, ' ' ∉ w.1 := by
  decide

theorem avoids_reach : Avoids ' ' reach := by
  have hall (words : List (List Char × TokenKind)) (hwords : ∀ w ∈ words, ' ' ∉ w.1) (n : Nat)
      (cs : List Char) (hn : ' ' ∉ cs.take n) : ' ' ∉ cs.take (reachOf words n cs) := by
    induction words generalizing n with
    | nil => exact hn
    | cons w words ih =>
        obtain ⟨hw, hwords⟩ := List.forall_mem_cons.mp hwords
        refine ih hwords (max n (agreement w.1 cs)) ?_
        rcases Nat.le_total n (agreement w.1 cs) with hle | hle
        · rw [Nat.max_eq_right hle]
          exact avoids_agreement hw cs
        · rw [Nat.max_eq_left hle]
          exact hn
  exact fun cs => hall spellings blank_notMem_spellings 0 cs (by simp)

theorem blank_notMem_of_fits {word cs : List Char} (h : fits word cs) (hword : ' ' ∉ word) :
    ' ' ∉ cs.take word.length := by
  fun_induction fits word cs with
  | case1 => simp
  | case2 => simp
  | case3 w ws c cs ih =>
      obtain ⟨hw, hws⟩ := not_or.mp (mt List.mem_cons.mpr hword)
      rw [Bool.and_eq_true, decide_eq_true_eq] at h
      have hc : ' ' ≠ c := by
        rintro rfl
        exact hw (by rw [← h.1]; decide)
      simpa using ⟨hc, ih h.2 hws⟩

end Keyword

namespace Token

theorem avoids_runLength {p : Char → Bool} (hp : p ' ' = false) : Avoids ' ' (runLength p) := by
  intro cs hmem
  rw [runLength, ← List.prefix_iff_eq_take.mp (List.takeWhile_prefix p)] at hmem
  have hblank := List.all_eq_true.mp List.all_takeWhile ' ' hmem
  rw [hp] at hblank
  contradiction

/-- What has no blank ends before one. -/
theorem le_length_of_avoids {cs back : List Char} {n : Nat} (h : ' ' ∉ (cs ++ ' ' :: back).take n) :
    n ≤ cs.length := by
  refine Nat.le_of_not_lt fun hlt => h ?_
  obtain ⟨k, rfl⟩ := Nat.exists_eq_add_of_lt hlt
  rw [Nat.add_assoc, List.take_length_add_append, List.take_succ_cons]
  simp

theorem blank_notMem_tail {c : Char} {cs : List Char} {n : Nat} (h : ' ' ∉ (c :: cs).take n) :
    ' ' ∉ cs.take (n - 1) := by
  cases n with
  | zero => simp
  | succ n =>
      rw [List.take_succ_cons] at h
      exact fun hmem => h (List.mem_cons_of_mem c hmem)

theorem word_avoids (c : Char) (cs : List Char) : ' ' ∉ cs.take (word c cs).2 := by
  have hrun : ' ' ∉ cs.take (runLength continuesWord cs) := avoids_runLength (by decide) cs
  unfold word
  split
  · rename_i spelling kind hlongest
    split
    · exact hrun
    · have hfits : Keyword.fits spelling (c :: cs) := by simpa using List.find?_some hlongest
      refine blank_notMem_tail (Keyword.blank_notMem_of_fits hfits ?_)
      exact Keyword.blank_notMem_spellings _ (List.mem_of_find?_eq_some hlongest)
  · split
    · exact hrun
    · exact blank_notMem_tail (Keyword.avoids_reach (c :: cs))

/-- What starts a comment, a string or a pragma. -/
def opensStretch (c : Char) (cs : List Char) : Bool :=
  (c = '/' && cs.head? = some '/') || (c = '(' && cs.head? = some '*') || c = '\x7b' || c = '\''

/-- Only comments, strings and pragmas hold blanks. -/
theorem munch_avoids {c : Char} {cs : List Char} (hblank : isBlank c = false)
    (hopens : opensStretch c cs = false) : ' ' ∉ cs.take (munch c cs).2 := by
  have htime (rest : List Char) : ' ' ∉ ('#' :: rest).take (timeLiteral rest).2 := by
    have hrun : ' ' ∉ rest.take (runLength continuesDuration rest) :=
      avoids_runLength (by decide) rest
    simpa [timeLiteral, runLength] using hrun
  unfold munch
  rw [if_neg (by simp [hblank])]
  split
  · exact blank_notMem_tail (Number.avoids_literal (c :: cs))
  · split
    case h_1 => simp [opensStretch] at hopens
    case h_3 => simp [opensStretch] at hopens
    case h_5 => simp [opensStretch] at hopens
    case h_6 => simp [opensStretch] at hopens
    case h_7 => exact contest_timeForms (.inl rfl) _ ▸ htime _
    case h_8 => exact contest_timeForms (.inr rfl) _ ▸ htime _
    case h_14 =>
      split
      · simp
      · exact Number.avoids_fraction (by decide) cs
    case h_29 => exact word_avoids c cs
    all_goals simp

/-! ### Comments, strings and pragmas -/

/-- A run that goes over a character, but ended before it came there. -/
theorem runLength_lt {p : Char → Bool} {x : Char} {cs behind : List Char} (hx : p x)
    (h : runLength p (cs ++ x :: behind) ≤ cs.length) (back : List Char) :
    runLength p (cs ++ back) < cs.length := by
  induction cs with
  | nil => simp [runLength, hx] at h
  | cons c cs ih =>
      by_cases hc : p c
      · simp only [runLength, List.cons_append, List.takeWhile_cons_of_pos hc, List.length_cons] at h ih ⊢
        have hlt := ih (by omega)
        omega
      · simp [runLength, hc]

theorem beforeCommentEnd_append {cs : List Char} {n : Nat} (h : beforeCommentEnd cs = some n)
    (back : List Char) : beforeCommentEnd (cs ++ back) = some n := by
  fun_induction beforeCommentEnd cs generalizing n with
  | case1 => simpa [beforeCommentEnd] using h
  | case2 c cs hend ih =>
      obtain ⟨m, hm, rfl⟩ := Option.map_eq_some_iff.mp h
      rw [List.cons_append, beforeCommentEnd]
      · rw [ih hm]
        rfl
      · rintro rest rfl hrest
        cases cs with
        | nil => cases hm
        | cons d cs =>
            cases hrest
            exact hend cs rfl rfl
  | case3 => cases h

theorem delimited_le {kind : TokenKind} {close : Char} {givesUp : Char → Bool}
    {cs behind : List Char} (hclose : close ≠ ';')
    (h : (delimited kind close givesUp (cs ++ ';' :: behind)).2 ≤ cs.length)
    (herror : (delimited kind close givesUp (cs ++ ';' :: behind)).1 ≠ .error) (back : List Char) :
    (delimited kind close givesUp (cs ++ back)).2 ≤ cs.length := by
  unfold delimited at h herror ⊢
  split at h
  · have hpassed : decide (';' ≠ close) = true := by simpa using hclose.symm
    have hlt := runLength_lt (p := (· ≠ close)) hpassed (Nat.le_of_succ_le h)
    have hmem : close ∈ cs := by
      refine Decidable.byContradiction fun hnone => ?_
      have hall : runLength (· ≠ close) cs = cs.length := by
        refine runLength_eq_length fun c hc => decide_eq_true ?_
        rintro rfl
        exact hnone hc
      have hshort := hlt []
      rw [List.append_nil, hall] at hshort
      exact Nat.lt_irrefl _ hshort
    rw [if_pos (by simp [hmem])]
    exact hlt back
  · rename_i hnone
    rw [if_neg hnone] at herror
    contradiction

theorem munch_comment {rest : List Char} {n : Nat} (h : beforeCommentEnd rest = some n) :
    munch '(' ('*' :: rest) = (.blockComment, n + 3) := by
  simp [munch, isBlank, h]

theorem munch_unclosed {rest : List Char} (h : beforeCommentEnd rest = none) :
    (munch '(' ('*' :: rest)).1 = .error := by
  simp [munch, isBlank, h]

/-- A comment, a string or a pragma that is closed before a `;` is closed before a blank. -/
theorem munch_le_of_opens {c : Char} {cs behind : List Char}
    (hopens : opensStretch c (cs ++ ';' :: behind))
    (h : (munch c (cs ++ ';' :: behind)).2 ≤ cs.length)
    (herror : (munch c (cs ++ ';' :: behind)).1 ≠ .error) (back : List Char) :
    (munch c (cs ++ ' ' :: back)).2 ≤ cs.length := by
  have hhead {d : Char} (hd : d ≠ ';') (hcs : (cs ++ ';' :: behind).head? = some d) :
      ∃ ds, cs = d :: ds := by
    cases cs with
    | nil => exact absurd (Option.some.inj hcs).symm hd
    | cons e ds => exact ⟨ds, by simpa using hcs⟩
  simp only [opensStretch, Bool.or_eq_true, Bool.and_eq_true, decide_eq_true_eq] at hopens
  rcases hopens with ((⟨rfl, hcs⟩ | ⟨rfl, hcs⟩) | rfl) | rfl
  · obtain ⟨ds, rfl⟩ := hhead (by decide) hcs
    have hrun : runLength (fun c => !endsLine c) (ds ++ ';' :: behind) ≤ ds.length :=
      Nat.le_of_succ_le_succ h
    exact Nat.succ_le_succ (Nat.le_of_lt (runLength_lt (by decide) hrun (' ' :: back)))
  · obtain ⟨ds, rfl⟩ := hhead (by decide) hcs
    rw [List.cons_append] at h herror ⊢
    cases hend : beforeCommentEnd (ds ++ ';' :: behind) with
    | none => exact absurd (munch_unclosed hend) herror
    | some n =>
        rw [munch_comment hend, List.length_cons] at h
        rw [munch_comment (beforeCommentEnd_append (beforeCommentEnd_cut hend (by omega)) _)]
        exact h
  · rw [munch_pragma] at h herror ⊢
    exact delimited_le (by decide) h herror _
  · rw [munch_string] at h herror ⊢
    exact delimited_le (by decide) h herror _

/-- A token that ends before a `;` is the same before a blank, unless it is blank itself. -/
theorem munch_blanked {c : Char} {cs behind : List Char} (hblank : isBlank c = false)
    (h : (munch c (cs ++ ';' :: behind)).2 ≤ cs.length)
    (herror : (munch c (cs ++ ';' :: behind)).1 ≠ .error) (back : List Char) :
    munch c (cs ++ ' ' :: back) = munch c (cs ++ ';' :: behind) := by
  have hle : (munch c (cs ++ ' ' :: back)).2 ≤ cs.length := by
    by_cases hopens : opensStretch c (cs ++ ';' :: behind)
    · exact munch_le_of_opens hopens h herror back
    · refine le_length_of_avoids (munch_avoids hblank ?_)
      cases cs with
      | nil => simpa [opensStretch] using hopens
      | cons d cs => simpa [opensStretch] using hopens
  rw [← munch_cut (by simp) (by simp) hle, munch_cut (by simp) (by simp) h]

/-! ### Texts -/

theorem first_of_blank {c : Char} (hc : isBlank c) (start : Nat) (cs : List Char) :
    first start c cs = ⟨.whitespace, c :: cs.take (runLength isBlank cs), start⟩ ∧
      afterFirst c cs = cs.drop (runLength isBlank cs) := by
  have hmunch : munch c cs = (.whitespace, runLength isBlank cs) := by simp [munch, hc]
  simp [first, afterFirst, hmunch]

/-- The tokens of a text that begins with a blank, trivia aside, are those behind the blank. -/
theorem significant_of_blank {c : Char} (hc : isBlank c) (start : Nat) (cs : List Char) :
    (lexFrom start (c :: cs)).filter (fun t => !t.isTrivia) =
      (lexFrom (start + c.utf8Size) cs).filter fun t => !t.isTrivia := by
  obtain ⟨hfirst, hafter⟩ := first_of_blank hc start cs
  rw [lexFrom_cons, List.filter_cons_of_neg (by simp [hfirst, isTrivia, TokenKind.isTrivia]), hfirst,
    hafter]
  cases cs with
  | nil => simp [Token.stop, runLength]
  | cons d ds =>
      by_cases hd : isBlank d
      · -- The blanks behind are the token that the shorter text begins with.
        obtain ⟨hfirst, hafter⟩ := first_of_blank hd (start + c.utf8Size) ds
        rw [lexFrom_cons _ d ds, List.filter_cons_of_neg
          (by simp [hfirst, isTrivia, TokenKind.isTrivia]), hfirst, hafter]
        simp [Token.stop, runLength, List.takeWhile_cons_of_pos hd, Nat.add_assoc]
      · simp [Token.stop, runLength, hd]

theorem significant_of_blanks {cs : List Char} (hcs : ∀ c ∈ cs, isBlank c) (start : Nat)
    (back : List Char) :
    (lexFrom start (cs ++ back)).filter (fun t => !t.isTrivia) =
      (lexFrom (start + byteLength cs) back).filter fun t => !t.isTrivia := by
  induction cs generalizing start with
  | nil => simp
  | cons c cs ih =>
      obtain ⟨hc, hcs⟩ := List.forall_mem_cons.mp hcs
      rw [List.cons_append, significant_of_blank hc, ih hcs, byteLength_cons, Nat.add_assoc]

/-- The text of some tokens, with a blank in the place of each of some others. -/
def blanked (S : Token → Bool) (ts : List Token) : List Char :=
  ts.flatMap fun t => if S t then [' '] else t.chars

variable {S : Token → Bool}

theorem blanked_cons (t : Token) (ts : List Token) :
    blanked S (t :: ts) = (if S t then [' '] else t.chars) ++ blanked S ts :=
  rfl

/-- Up to the first terminator that is replaced, the text is the same. -/
theorem blanked_cases {ts : List Token} (hS : ∀ t ∈ ts, S t → t.chars = [';']) :
    blanked S ts = ts.flatMap Token.chars ∨ ∃ front behind back,
      ts.flatMap Token.chars = front ++ ';' :: behind ∧ blanked S ts = front ++ ' ' :: back := by
  induction ts with
  | nil => exact .inl rfl
  | cons t ts ih =>
      obtain ⟨ht, hts⟩ := List.forall_mem_cons.mp hS
      cases htest : S t with
      | true => exact .inr ⟨[], ts.flatMap Token.chars, blanked S ts, by simp [ht htest], by
          simp [blanked, htest]⟩
      | false =>
          have hcons : blanked S (t :: ts) = t.chars ++ blanked S ts := by
            simp [blanked_cons, htest]
          rcases ih hts with hsame | ⟨front, behind, back, hchars, hblanked⟩
          · exact .inl (by rw [hcons, hsame, List.flatMap_cons])
          · refine .inr ⟨t.chars ++ front, behind, back, ?_, ?_⟩
            · rw [List.flatMap_cons, hchars, List.append_assoc]
            · rw [hcons, hblanked, List.append_assoc]

/-- A token is the first one of any text that begins with it and is munched in the same way. -/
theorem first_of_munch {c : Char} {cs rest : List Char}
    (hsame : munch c (cs.take (munch c cs).2 ++ rest) = munch c cs)
    (hlength : (munch c cs).2 ≤ cs.length ∨ rest = []) (start : Nat) :
    first start c (cs.take (munch c cs).2 ++ rest) = first start c cs ∧
      afterFirst c (cs.take (munch c cs).2 ++ rest) = rest := by
  simp only [first, afterFirst, hsame]
  rcases hlength with hlength | rfl
  · have htake := List.length_take_of_le hlength
    rw [List.take_left' htake, List.drop_left' htake]
    exact ⟨rfl, rfl⟩
  · rw [List.append_nil, List.take_take, Nat.min_self]
    exact ⟨rfl, by simp⟩

/-- The first token, if it is not replaced and no blank, is the first one of the new text. -/
theorem lexFrom_blanked {start : Nat} {c : Char} {cs : List Char} (hblank : isBlank c = false)
    (herror : (first start c cs).kind ≠ .error)
    (hS : ∀ t ∈ lexFrom (first start c cs).stop (afterFirst c cs), S t → t.chars = [';']) :
    let rest := blanked S (lexFrom (first start c cs).stop (afterFirst c cs))
    lexFrom start ((first start c cs).chars ++ rest) =
      first start c cs :: lexFrom (first start c cs).stop rest := by
  intro rest
  have hcs : cs.take (munch c cs).2 ++ afterFirst c cs = cs := List.take_append_drop _ _
  have hsame : munch c (cs.take (munch c cs).2 ++ rest) = munch c cs := by
    have hcases := blanked_cases hS
    rw [chars_lexFrom] at hcases
    rcases hcases with hrest | ⟨front, behind, back, hbehind, hrest⟩
    · rw [show rest = afterFirst c cs from hrest, hcs]
    · -- What follows the token begins with the same characters, up to the first `;` that is gone.
      have hlength : (munch c cs).2 ≤ (cs.take (munch c cs).2 ++ front).length := by
        have hne : afterFirst c cs ≠ [] := by simp [hbehind]
        have hlt : (munch c cs).2 < cs.length := by
          simpa [afterFirst, List.drop_eq_nil_iff] using hne
        simp only [List.length_append, List.length_take]
        omega
      have hsplit : (cs.take (munch c cs).2 ++ front) ++ ';' :: behind = cs := by
        rw [List.append_assoc, ← hbehind, hcs]
      have hmunch : munch c ((cs.take (munch c cs).2 ++ front) ++ ' ' :: back) =
          munch c ((cs.take (munch c cs).2 ++ front) ++ ';' :: behind) :=
        munch_blanked hblank (by rwa [hsplit]) (by rwa [hsplit]) back
      rw [hsplit] at hmunch
      rw [show rest = front ++ ' ' :: back from hrest, ← List.append_assoc, hmunch]
  have hlength : (munch c cs).2 ≤ cs.length ∨ rest = [] := by
    refine (Nat.le_total _ _).imp_right fun hle => ?_
    have hnone : afterFirst c cs = [] := List.drop_eq_nil_of_le hle
    change blanked S (lexFrom _ (afterFirst c cs)) = []
    rw [hnone, lexFrom_nil]
    rfl
  obtain ⟨hfirst, hafter⟩ := first_of_munch hsame hlength start
  change lexFrom start (c :: (cs.take (munch c cs).2 ++ rest)) = _
  rw [lexFrom_cons, hfirst, hafter]

/-- With blanks in the place of some terminators, a text without error tokens has the same tokens at the
same places, but for trivia and the terminators that are gone. -/
theorem significant_blanked {start : Nat} {cs : List Char}
    (herror : ∀ t ∈ lexFrom start cs, t.kind ≠ .error)
    (hS : ∀ t ∈ lexFrom start cs, S t → t.kind = .semicolon) :
    (lexFrom start (blanked S (lexFrom start cs))).filter (fun t => !t.isTrivia) =
      (lexFrom start cs).filter fun t => !t.isTrivia && !S t := by
  fun_induction lexFrom start cs with
  | case1 => simp [blanked]
  | case2 start c cs ih =>
      have hmem : first start c cs ∈ lexFrom start (c :: cs) := by simp [lexFrom_cons]
      obtain ⟨hkind, herror⟩ := List.forall_mem_cons.mp herror
      obtain ⟨hfirst, hS⟩ := List.forall_mem_cons.mp hS
      rw [blanked_cons, List.filter_cons, ← ih herror hS]
      cases htest : S (first start c cs) with
      | true =>
          have hchars : (first start c cs).chars = [';'] := chars_of_semicolon hmem (hfirst htest)
          have hstop : start + ' '.utf8Size = (first start c cs).stop := by
            rw [Token.stop, hchars]
            rfl
          rw [if_pos rfl, List.singleton_append, significant_of_blank (by decide), hstop]
          simp
      | false =>
          rw [if_neg Bool.false_ne_true]
          by_cases hblank : isBlank c
          · have hwhite : (first start c cs).kind = .whitespace :=
              congrArg Token.kind (first_of_blank hblank start cs).1
            rw [significant_of_blanks (isBlank_of_whitespace hmem hwhite)]
            simp only [isTrivia, hwhite, TokenKind.isTrivia]
            rfl
          · rw [lexFrom_blanked (by simpa using hblank) hkind fun u hu hSu =>
              chars_of_semicolon hu (hS u hu hSu), List.filter_cons]
            simp

end Token

end StructuredText
