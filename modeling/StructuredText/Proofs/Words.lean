import StructuredText.Proofs.Token.LetterCase
import StructuredText.Proofs.Tokens

/-!
Words. A token is a keyword if it is spelled like one, a name if it is made of the characters of names
and not spelled like a keyword, and neither of them ends within such a word. Only the two letters beyond
ASCII that fold to letters make a difference: they go on with a keyword, but with no name.
-/

namespace StructuredText

/-! ### Spellings -/

namespace TokenKind

/-- What a keyword looks like when letter case is forgotten: its canonical spelling, or the second
spelling of `VAR_STATIC`. -/
def IsSpelled (k : TokenKind) (folded : List Char) : Prop :=
  k.spelling? = some (String.ofList folded) ∨ k = .kwVarStatic ∧ folded = "var_stat".toList

def isWord (k : TokenKind) : Bool :=
  k = .ident || k.isKeyword

end TokenKind

namespace Keyword

open TokenKind

variable {c : Char} {cs : List Char} {w : List Char × TokenKind}

/-- The canonical spelling of a keyword is the first one of the lexer's. -/
theorem spelling?_eq (k : TokenKind) :
    k.spelling? = (spellings.find? fun w => w.2 = k).map fun w => String.ofList w.1 := by
  cases k <;> decide +kernel

/-- The spellings are those of the table. -/
theorem isSpelled_iff {k : TokenKind} : k.IsSpelled cs ↔ (cs, k) ∈ spellings := by
  have hcanonical : ∀ w ∈ spellings,
      w.2.spelling? = some (String.ofList w.1) ∨ w.2 = .kwVarStatic ∧ w.1 = "var_stat".toList := by
    decide +kernel
  constructor
  · rintro (hspelling | ⟨rfl, rfl⟩)
    · rw [spelling?_eq] at hspelling
      obtain ⟨w, hw, hword⟩ := Option.map_eq_some_iff.mp hspelling
      have hkind : w.2 = k := by simpa using List.find?_some hw
      rw [← String.ofList_injective hword, ← hkind]
      exact List.mem_of_find?_eq_some hw
    · decide
  · exact fun h => hcanonical _ h

theorem isKeyword_of_mem (h : w ∈ spellings) : w.2.isKeyword := by
  have hall : ∀ w ∈ spellings, w.2.isKeyword := by decide +kernel
  exact hall w h

/-- No two keywords are spelled alike. -/
theorem kind_eq_of_mem {w' : List Char × TokenKind} (h : w ∈ spellings) (h' : w' ∈ spellings)
    (hsame : w.1 = w'.1) : w.2 = w'.2 := by
  have hall : ∀ w ∈ spellings, ∀ w' ∈ spellings, w.1 = w'.1 → w.2 = w'.2 := by decide +kernel
  exact hall w h w' h' hsame

theorem spelling_chars (h : w ∈ spellings) : ∀ x ∈ w.1, x.isAlpha ∨ x = '_' := by
  have hall : spellings.all fun w => w.1.all fun x => x.isAlpha || x = '_' := by decide +kernel
  simpa using List.all_eq_true.mp (List.all_eq_true.mp hall w h)

theorem exists_letter_of_mem (h : w ∈ spellings) : ∃ x xs, w.1 = x :: xs ∧ x.isAlpha := by
  have hall : ∀ w ∈ spellings, w.1.head?.any Char.isAlpha := by decide +kernel
  obtain ⟨x, hx, hletter⟩ := Option.any_eq_true _ _ |>.mp (hall w h)
  obtain ⟨xs, hxs⟩ := List.head?_eq_some_iff.mp hx
  exact ⟨x, xs, hxs, hletter⟩

theorem fits_iff {word : List Char} :
    fits word cs ↔ (cs.take word.length).map fold = word := by
  fun_induction fits word cs with
  | case1 => simp
  | case2 => simp
  | case3 w ws c cs ih => simp [ih]

/-- What folds to a letter is that letter, in some letter case, or one of the two beyond ASCII. -/
theorem fold_cases (h : (fold c).isAlpha) : c.isAlpha ∨ c = '\u017f' ∨ c = '\u212a' := by
  unfold fold at h
  split at h
  · exact .inr (.inl ‹_›)
  · split at h
    · exact .inr (.inr ‹_›)
    · exact .inl (by simpa using h)

/-- A character within ASCII that folds to one of a keyword is a character of names. -/
theorem continuesWord_of_fold (hascii : c.toNat < 128) (h : (fold c).isAlpha ∨ fold c = '_') :
    Token.continuesWord c := by
  have hfold : fold c = c.toLower := by
    unfold fold
    rw [if_neg, if_neg]
    · rintro rfl
      exact absurd hascii (by decide)
    · rintro rfl
      exact absurd hascii (by decide)
  rw [hfold, isAlpha_toLower, toLower_eq_iff (by decide)] at h
  rcases h with h | rfl
  · simp [Token.continuesWord, Char.isAlphanum, h]
  · rfl

end Keyword

/-! ### Words as they are munched -/

namespace Token

open Keyword

variable {c : Char} {cs : List Char}

/-- Names and keywords are found as words only. -/
theorem munch_eq_word (h : (munch c cs).1.isWord) : munch c cs = word c cs := by
  have hdelimited {kind : TokenKind} (hkind : kind.isWord = false) (close : Char)
      (givesUp : Char → Bool) : (delimited kind close givesUp cs).1.isWord = false := by
    unfold delimited
    split
    · exact hkind
    · rfl
  have htime (cs : List Char) : (timeLiteral cs).1.isWord = false := by
    simp only [timeLiteral]
    split <;> rfl
  unfold munch at h ⊢
  split at h
  · contradiction
  · rename_i hblank
    rw [if_neg hblank]
    split at h
    · simp only at h
      split at h <;> contradiction
    · rename_i hdigit
      rw [if_neg hdigit]
      split at h
      case h_3 => split at h <;> contradiction
      case h_5 =>
        rw [contest_pragmaForms, hdelimited rfl] at h
        contradiction
      case h_6 =>
        rw [contest_stringForms, hdelimited rfl] at h
        contradiction
      case h_7 =>
        rw [contest_timeForms (.inl rfl), htime] at h
        contradiction
      case h_8 =>
        rw [contest_timeForms (.inr rfl), htime] at h
        contradiction
      case h_14 => split at h <;> contradiction
      case h_29 => rfl
      all_goals contradiction

/-- What starts like a word is one, unless it starts a time literal. -/
theorem munch_of_startsWord (h : startsWord c ∨ (fold c).isAlpha) (htime : opensTime c cs = false) :
    munch c cs = word c cs := by
  have hcases : c.isAlpha ∨ c = '_' ∨ c = '\u017f' ∨ c = '\u212a' := by
    rcases h with h | h
    · simp only [startsWord, Bool.or_eq_true, decide_eq_true_eq] at h
      exact h.imp_right .inl
    · exact (fold_cases h).imp_right .inr
  rcases hcases with hletter | rfl | rfl | rfl
  · rw [munch_letter hletter, if_neg (by simp [htime])]
  · rfl
  · rfl
  · rfl

/-- The token that starts a time literal has a character that no word has. -/
theorem opensTime_eq_false {start : Nat} (h : '#' ∉ (first start c cs).chars) :
    opensTime c cs = false := by
  refine Bool.eq_false_iff.mpr fun htime => h ?_
  simp only [opensTime, Bool.and_eq_true, decide_eq_true_eq] at htime
  obtain ⟨rest, rfl⟩ := List.head?_eq_some_iff.mp htime.2
  have hmunch : munch c ('#' :: rest) = timeLiteral rest :=
    munch_time (eq_or_eq_of_toLower_eq htime.1) rest
  simp [first, hmunch, timeLiteral]

/-- What a word is: the longest keyword at its place, unless a longer name is there; a name that is longer
than all keywords at its place; or an error where there is neither. -/
inductive WordCase (c : Char) (cs : List Char) : Prop
  | keyword (w : List Char × TokenKind) (hmem : w ∈ spellings)
      (hmunch : word c cs = (w.2, w.1.length - 1)) (hfits : fits w.1 (c :: cs))
      (hlongest : startsWord c → runLength continuesWord cs + 1 ≤ w.1.length)
  | name (hmunch : word c cs = (.ident, runLength continuesWord cs)) (hstarts : startsWord c)
      (hlonger : ∀ w ∈ spellings, fits w.1 (c :: cs) →
        w.1.length < runLength continuesWord cs + 1)
  | error (hkind : (word c cs).1 = .error) (hstarts : startsWord c = false)
      (hnone : ∀ w ∈ spellings, ¬fits w.1 (c :: cs))

theorem word_cases (c : Char) (cs : List Char) : WordCase c cs := by
  cases hlongest : longest? (c :: cs) with
  | none =>
      have hnone : ∀ w ∈ spellings, ¬fits w.1 (c :: cs) := List.find?_eq_none.mp hlongest
      cases hstarts : startsWord c with
      | true => exact .name (by simp [word, hlongest, hstarts]) hstarts fun w hw h => absurd h (hnone w hw)
      | false => exact .error (by simp [word, hlongest, hstarts]) hstarts hnone
  | some w =>
      obtain ⟨hfits, before, after, hspellings, hbefore⟩ := List.find?_eq_some_iff_append.mp hlongest
      by_cases hname : startsWord c ∧ runLength continuesWord cs + 1 > w.1.length
      · refine .name (by simp [word, hlongest, hname]) hname.1 fun w' hw' hfits' => ?_
        -- The spellings that stand before the longest one do not fit.
        have hpairs := spellings_longest_first
        rw [hspellings] at hw' hpairs
        rcases List.mem_append.mp hw' with hw' | hw'
        · exact absurd hfits' (by simpa using hbefore w' hw')
        · have hle : w'.1.length ≤ w.1.length := by
            rcases List.mem_cons.mp hw' with rfl | hw'
            · exact Nat.le_refl _
            · exact (List.pairwise_cons.mp (List.pairwise_append.mp hpairs).2.1).1 w' hw'
          exact Nat.lt_of_le_of_lt hle hname.2
      · refine .keyword w (List.mem_of_find?_eq_some hlongest) ?_ hfits fun hstarts => ?_
        · simp only [word, hlongest]
          rw [if_neg (by simpa using hname)]
        · exact Nat.le_of_not_lt fun hlt => hname ⟨hstarts, hlt⟩

/-! ### Tokens -/

/-- A letter or an underscore, and letters, digits and underscores behind it. -/
def IsName (cs : List Char) : Prop :=
  ∃ c ds, cs = c :: ds ∧ startsWord c ∧ ∀ d ∈ ds, continuesWord d

variable {start : Nat}

/-- The characters of a keyword token. -/
theorem chars_of_keyword {w : List Char × TokenKind} (hmem : w ∈ spellings)
    (h : munch c cs = (w.2, w.1.length - 1)) :
    (first start c cs).chars = (c :: cs).take w.1.length := by
  obtain ⟨x, xs, hw, -⟩ := exists_letter_of_mem hmem
  simp [first, h, hw]

theorem chars_of_name (h : munch c cs = (.ident, runLength continuesWord cs)) :
    (first start c cs).chars = c :: cs.takeWhile continuesWord := by
  rw [first, h, take_runLength]

/-- A text whose first token is spelled like a keyword begins with the keyword. -/
theorem fits_of_map_chars {spelling : List Char}
    (h : (first start c cs).chars.map fold = spelling) : fits spelling (c :: cs) := by
  have hprefix : (first start c cs).chars <+: c :: cs :=
    ⟨afterFirst c cs, first_append_afterFirst start c cs⟩
  rw [fits_iff, ← h, List.length_map, ← List.prefix_iff_eq_take.mp hprefix]

theorem isSpelled_of_isKeyword (h : (first start c cs).kind.isKeyword) :
    (first start c cs).kind.IsSpelled ((first start c cs).chars.map fold) := by
  have hword : munch c cs = word c cs := munch_eq_word (Bool.or_eq_true _ _ |>.mpr (.inr h))
  have hkind : (first start c cs).kind = (word c cs).1 := by rw [first, hword]
  rw [hkind] at h ⊢
  cases word_cases c cs with
  | keyword w hmem hmunch hfits _ =>
      rw [chars_of_keyword hmem (hword.trans hmunch), fits_iff.mp hfits, hmunch]
      exact isSpelled_iff.mpr hmem
  | name hmunch =>
      rw [hmunch] at h
      contradiction
  | error herror =>
      rw [herror] at h
      contradiction

theorem kind_of_isSpelled {k : TokenKind}
    (h : k.IsSpelled ((first start c cs).chars.map fold)) : (first start c cs).kind = k := by
  have hmem := isSpelled_iff.mp h
  have hfits := fits_of_map_chars (rfl : (first start c cs).chars.map fold = _)
  obtain ⟨x, xs, hletter, hx⟩ := exists_letter_of_mem hmem
  have hmark : '#' ∉ (first start c cs).chars := fun hmark =>
    absurd (spelling_chars hmem _ (List.mem_map_of_mem hmark)) (by decide)
  have hstarts : (fold c).isAlpha := by
    rw [first, List.map_cons] at hletter
    rwa [(List.cons.inj hletter).1]
  have hword : munch c cs = word c cs := munch_of_startsWord (.inr hstarts) (opensTime_eq_false hmark)
  cases word_cases c cs with
  | keyword w hmem' hmunch hfits' _ =>
      have hsame : w.1 = (first start c cs).chars.map fold := by
        rw [chars_of_keyword hmem' (hword.trans hmunch), fits_iff.mp hfits']
      rw [first, hword, hmunch]
      exact kind_eq_of_mem hmem' hmem hsame
  | name hmunch _ hlonger =>
      have hlt := hlonger _ hmem hfits
      have hlength : (first start c cs).chars.length = runLength continuesWord cs + 1 := by
        rw [chars_of_name (hword.trans hmunch)]
        rfl
      rw [List.length_map, hlength] at hlt
      exact absurd hlt (Nat.lt_irrefl _)
  | error _ _ hnone => exact absurd hfits (hnone _ hmem)

/-- A keyword is what is spelled like it. -/
theorem keyword_iff (k : TokenKind) :
    (first start c cs).kind = k ∧ k.isKeyword ↔ k.IsSpelled ((first start c cs).chars.map fold) := by
  constructor
  · rintro ⟨rfl, hkeyword⟩
    exact isSpelled_of_isKeyword hkeyword
  · exact fun h => ⟨kind_of_isSpelled h, isKeyword_of_mem (isSpelled_iff.mp h)⟩

/-- A name is what has its form, unless it is a keyword. -/
theorem ident_iff : (first start c cs).kind = .ident ↔
    IsName (first start c cs).chars ∧ ∀ k, ¬TokenKind.IsSpelled k ((first start c cs).chars.map fold) := by
  constructor
  · intro hkind
    have hword : munch c cs = word c cs := munch_eq_word (by
      rw [show (munch c cs).1 = .ident from hkind]
      rfl)
    have hnone (k : TokenKind) : ¬TokenKind.IsSpelled k ((first start c cs).chars.map fold) := by
      intro hspelled
      obtain ⟨hk, hkeyword⟩ := (keyword_iff k).mpr hspelled
      rw [← hk, hkind] at hkeyword
      contradiction
    refine ⟨?_, hnone⟩
    have hident : (word c cs).1 = .ident := hword ▸ hkind
    cases word_cases c cs with
    | keyword w hmem hmunch =>
        have hkeyword := isKeyword_of_mem hmem
        rw [hmunch] at hident
        rw [show w.2 = .ident from hident] at hkeyword
        contradiction
    | name hmunch hstarts =>
        rw [chars_of_name (hword.trans hmunch)]
        exact ⟨c, _, rfl, hstarts, fun d hd => List.all_eq_true.mp List.all_takeWhile d hd⟩
    | error herror =>
        rw [herror] at hident
        contradiction
  · rintro ⟨⟨d, ds, hchars, hstarts, hcontinues⟩, hnone⟩
    obtain rfl : c = d := (List.cons.inj hchars).1
    have hmark : '#' ∉ (first start c cs).chars := by
      intro hmark
      rw [hchars, List.mem_cons] at hmark
      rcases hmark with rfl | hmark
      · exact absurd hstarts (by decide)
      · exact absurd (hcontinues _ hmark) (by decide)
    have hword : munch c cs = word c cs := munch_of_startsWord (.inl hstarts) (opensTime_eq_false hmark)
    rw [first, hword]
    cases word_cases c cs with
    | keyword w hmem hmunch =>
        have hkeyword : (first start c cs).kind = w.2 ∧ w.2.isKeyword :=
          ⟨by rw [first, hword, hmunch], isKeyword_of_mem hmem⟩
        exact absurd ((keyword_iff w.2).mp hkeyword) (hnone w.2)
    | name hmunch => rw [hmunch]
    | error _ hno =>
        rw [hstarts] at hno
        contradiction

theorem length_le_runLength {p : Char → Bool} {front : List Char} (h : ∀ x ∈ front, p x)
    (back : List Char) : front.length ≤ runLength p (front ++ back) := by
  rw [runLength, List.takeWhile_append_of_pos h, List.length_append]
  exact Nat.le_add_right _ _

/-- A keyword within ASCII is a whole run of characters of names. -/
theorem runLength_of_keyword {w : List Char × TokenKind} (hmem : w ∈ spellings)
    (hfits : fits w.1 (c :: cs)) (hascii : ∀ x ∈ (c :: cs).take w.1.length, x.toNat < 128)
    (hlongest : startsWord c → runLength continuesWord cs + 1 ≤ w.1.length) :
    runLength continuesWord cs = w.1.length - 1 := by
  have hfolded := fits_iff.mp hfits
  obtain ⟨x, xs, hw, hx⟩ := exists_letter_of_mem hmem
  rw [hw, List.length_cons, List.take_succ_cons] at hfolded hascii
  obtain ⟨hfirst, hfolded⟩ := List.cons.inj hfolded
  have hstarts : startsWord c := by
    rcases fold_cases (hfirst ▸ hx) with hletter | rfl | rfl
    · simp [startsWord, hletter]
    · exact absurd (hascii _ List.mem_cons_self) (by decide)
    · exact absurd (hascii _ List.mem_cons_self) (by decide)
  have hcontinues : ∀ y ∈ cs.take xs.length, continuesWord y := by
    intro y hy
    refine continuesWord_of_fold (hascii y (List.mem_cons_of_mem _ hy)) (spelling_chars hmem _ ?_)
    rw [hw, ← hfolded]
    exact List.mem_cons_of_mem _ (List.mem_map_of_mem hy)
  have hlength : (cs.take xs.length).length = xs.length := by
    simpa using congrArg List.length hfolded
  have hge := length_le_runLength hcontinues (cs.drop xs.length)
  have hle := hlongest hstarts
  rw [List.take_append_drop, hlength] at hge
  rw [hw, List.length_cons] at hle ⊢
  omega

/-- Behind a name, and behind a keyword within ASCII, no name could go on. -/
theorem continuesWord_behind (h : (first start c cs).kind = .ident ∨ (first start c cs).kind.isKeyword ∧
      ∀ x ∈ (first start c cs).chars, x.toNat < 128) {d : Char} {rest : List Char}
    (hrest : afterFirst c cs = d :: rest) : continuesWord d = false := by
  have hwordKind : (munch c cs).1.isWord := by
    rcases h with h | ⟨h, -⟩
    · rw [show (munch c cs).1 = .ident from h]
      rfl
    · exact Bool.or_eq_true _ _ |>.mpr (.inr h)
  have hword : munch c cs = word c cs := munch_eq_word hwordKind
  -- What is munched is a whole run of characters of names.
  have hrun : (munch c cs).2 = runLength continuesWord cs := by
    rw [hword]
    cases word_cases c cs with
    | name hmunch => rw [hmunch]
    | error herror =>
        rw [hword, herror] at hwordKind
        contradiction
    | keyword w hmem hmunch hfits hlongest =>
        have hascii : ∀ x ∈ (first start c cs).chars, x.toNat < 128 := by
          refine (h.resolve_left fun hident => ?_).2
          have hkeyword := isKeyword_of_mem hmem
          rw [show w.2 = .ident by rw [← hident, first, hword, hmunch]] at hkeyword
          contradiction
        rw [chars_of_keyword hmem (hword.trans hmunch)] at hascii
        rw [hmunch, ← runLength_of_keyword hmem hfits hascii hlongest]
  have hhead := List.head?_dropWhile_not continuesWord cs
  rw [← drop_runLength, ← hrun, ← afterFirst, hrest] at hhead
  simpa using hhead

/-- A token of a text is a keyword exactly if it is spelled like that keyword when letter case is
forgotten, and a name exactly if it has the form of a name and is spelled like no keyword. What follows
a name, or a keyword that is within ASCII, is no letter, digit or underscore. -/
theorem words_exact {source : List Char} {before after : List Token} {t : Token}
    (h : lex source = before ++ t :: after) :
    (∀ k, t.kind = k ∧ k.isKeyword ↔ k.IsSpelled (t.chars.map fold)) ∧
    (t.kind = .ident ↔ IsName t.chars ∧ ∀ k, ¬TokenKind.IsSpelled k (t.chars.map fold)) ∧
    ((t.kind = .ident ∨ t.kind.isKeyword ∧ ∀ c ∈ t.chars, c.toNat < 128) →
      ∀ d rest, source = before.flatMap chars ++ t.chars ++ d :: rest → continuesWord d = false) := by
  obtain ⟨n, c, cs, rfl, hsource, hafter⟩ := exists_first_of_split h
  refine ⟨keyword_iff, ident_iff, fun hkind d rest hd => ?_⟩
  have hrest : afterFirst c cs = d :: rest := afterFirst_of_append (hsource.symm.trans hd)
  exact continuesWord_behind hkind hrest

/-- A name that begins like two keywords. -/
theorem words_exact_statics :
    let source := "END_\u017ftruct Var_Statics;".toList
    ∃ before t after, lex source = before ++ t :: after ∧ t.kind = .ident ∧
      t.chars = "Var_Statics".toList ∧ IsName t.chars ∧
      (∀ k, ¬TokenKind.IsSpelled k (t.chars.map fold)) ∧
      ∀ d rest, source = before.flatMap chars ++ t.chars ++ d :: rest → continuesWord d = false := by
  intro source
  let keyword : Token := ⟨.kwEndStruct, "END_\u017ftruct".toList, 0⟩
  let t : Token := ⟨.ident, "Var_Statics".toList, 12⟩
  have h : lex source = [keyword, ⟨.whitespace, [' '], 11⟩] ++ t :: [⟨.semicolon, [';'], 23⟩] := by
    decide +kernel
  obtain ⟨-, hname, hbehind⟩ := words_exact h
  obtain ⟨hform, hnone⟩ := hname.mp rfl
  exact ⟨_, t, _, h, rfl, rfl, hform, hnone, hbehind (.inl rfl)⟩

end Token

end StructuredText
