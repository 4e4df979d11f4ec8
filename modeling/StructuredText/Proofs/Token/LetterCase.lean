import StructuredText.Proofs.Token.Contest
import StructuredText.Proofs.Token.Local

/-!
Letter case makes no difference to the tokens of a text. Each part of the lexer counts as far in a text
in small letters as in the text itself: the tests on characters hold of a capital and of its small letter
alike, and where one character is asked for, it is no letter or is asked for in both cases.
-/

namespace StructuredText

/-! ### Characters -/

/-- The characters that have a small letter. -/
def capitals : List Char :=
  "ABCDEFGHIJKLMNOPQRSTUVWXYZ".toList

theorem mem_capitals {c : Char} (h : c.isUpper) : c ∈ capitals := by
  have hrange : ∀ n < 91, 65 ≤ n → Char.ofNat n ∈ capitals := by decide
  have hbounds : c.val ≥ 'A'.val ∧ c.val ≤ 'Z'.val := of_decide_eq_true h
  rw [← Char.ofNat_toNat c]
  apply hrange
  · exact Nat.lt_succ_of_le (UInt32.le_iff_toNat_le.mp hbounds.2)
  · exact UInt32.le_iff_toNat_le.mp hbounds.1

theorem toLower_eq_self {c : Char} (h : ¬c.isUpper) : c.toLower = c :=
  dif_neg (mt decide_eq_true h)

theorem isAlpha_eq (c : Char) : c.isAlpha = (c.isUpper || c.isLower) := rfl

theorem not_isUpper_of_isAlpha_eq_false {c : Char} (h : c.isAlpha = false) : ¬c.isUpper := by
  rw [isAlpha_eq, Bool.or_eq_false_iff] at h
  exact Bool.eq_false_iff.mp h.1

/-- What is the same for the capitals and their small letters does not depend on letter case. -/
theorem apply_toLower {α : Type} {f : Char → α}
    (h : capitals.map (fun c => f c.toLower) = capitals.map f) (c : Char) : f c.toLower = f c := by
  by_cases hc : c.isUpper
  · exact List.map_inj_left.mp h c (mem_capitals hc)
  · rw [toLower_eq_self hc]

@[simp] theorem isDigit_toLower (c : Char) : c.toLower.isDigit = c.isDigit :=
  apply_toLower rfl c

@[simp] theorem isAlpha_toLower (c : Char) : c.toLower.isAlpha = c.isAlpha :=
  apply_toLower rfl c

@[simp] theorem utf8Size_toLower (c : Char) : c.toLower.utf8Size = c.utf8Size :=
  apply_toLower rfl c

@[simp] theorem toLower_toLower (c : Char) : c.toLower.toLower = c.toLower :=
  apply_toLower rfl c

@[simp] theorem byteLength_map_toLower (cs : List Char) :
    byteLength (cs.map Char.toLower) = byteLength cs := by
  induction cs with
  | nil => rfl
  | cons c cs ih => simp [ih]

/-- A character that is no letter stands where it stood. -/
theorem toLower_eq_iff {c x : Char} (hx : x.isAlpha = false) : c.toLower = x ↔ c = x := by
  by_cases hc : c.isUpper
  · have hletter : c.isAlpha := by rw [isAlpha_eq, hc, Bool.true_or]
    constructor
    · rintro rfl
      simp [hletter] at hx
    · rintro rfl
      simp [hletter] at hx
  · rw [toLower_eq_self hc]

/-- So does a row of such characters. -/
theorem map_toLower_eq_append (mark : List Char) {cs rest : List Char}
    (hmark : mark.any Char.isAlpha = false) (h : cs.map Char.toLower = mark ++ rest) :
    ∃ rest', cs = mark ++ rest' ∧ rest'.map Char.toLower = rest := by
  induction mark generalizing cs with
  | nil => exact ⟨cs, rfl, h⟩
  | cons x mark ih =>
      rw [List.any_cons, Bool.or_eq_false_iff] at hmark
      obtain ⟨c, cs, rfl, hc, hrest⟩ := List.map_eq_cons_iff.mp h
      obtain rfl := (toLower_eq_iff hmark.1).mp hc
      obtain ⟨rest', rfl, hrest'⟩ := ih hmark.2 hrest
      exact ⟨rest', rfl, hrest'⟩

/-- A text that does not begin with a row of such characters does not in small letters. -/
theorem map_toLower_ne_append (mark : List Char) {cs : List Char}
    (hmark : mark.any Char.isAlpha = false) (h : ∀ rest, cs ≠ mark ++ rest) (rest : List Char) :
    cs.map Char.toLower ≠ mark ++ rest := by
  intro heq
  obtain ⟨rest', hcs, -⟩ := map_toLower_eq_append mark hmark heq
  exact h rest' hcs

theorem head?_map_toLower {cs : List Char} {x : Char} (hx : x.isAlpha = false) :
    (cs.map Char.toLower).head? = some x ↔ cs.head? = some x := by
  cases cs with
  | nil => simp
  | cons c cs => simp [toLower_eq_iff hx]

theorem takeWhile_map_toLower {p : Char → Bool} (hp : ∀ c, p c.toLower = p c) (cs : List Char) :
    (cs.map Char.toLower).takeWhile p = (cs.takeWhile p).map Char.toLower := by
  rw [List.takeWhile_map, Function.comp_def]
  simp only [hp]

/-- A text in small letters counts as the text itself. -/
def Caseless {α : Type} (f : List Char → α) : Prop :=
  ∀ cs, f (cs.map Char.toLower) = f cs

/-! ### Numbers -/

namespace Number

theorem caseless_groups {digit : Char → Bool} (hdigit : ∀ c, digit c.toLower = digit c) :
    Caseless (groups digit) := by
  intro cs
  have hpoint {d : Char} : d.toLower = '_' ↔ d = '_' := toLower_eq_iff (by decide)
  fun_induction groups digit cs with
  | case1 => rfl
  | case2 d hd | case3 d hd => simp [groups, hdigit, hd]
  | case4 d e cs hd ih => simpa [groups, hdigit, hd] using ih
  | case5 d e cs hd hgroup ih => simp_all [groups]
  | case6 d e cs hd hgroup => simp_all [groups]

theorem caseless_decimal : Caseless decimal := by
  intro cs
  cases cs with
  | nil => rfl
  | cons d cs =>
      simp only [List.map_cons, decimal, isDigit_toLower, caseless_groups isDigit_toLower cs,
        ← List.map_drop, head?_map_toLower (show '_'.isAlpha = false from rfl)]

theorem caseless_sign : Caseless sign := by
  intro cs
  fun_cases sign cs with
  | case1 | case2 => rfl
  | case3 =>
      rename_i hplus hminus
      rw [sign]
      · exact map_toLower_ne_append ['+'] rfl hplus
      · exact map_toLower_ne_append ['-'] rfl hminus

theorem caseless_exponent : Caseless exponent := by
  intro cs
  cases cs with
  | nil => rfl
  | cons e cs =>
      have hmark : (e.toLower = 'e' || e.toLower = 'E') = (e = 'e' || e = 'E') :=
        apply_toLower (f := fun e => (e = 'e' || e = 'E' : Bool)) rfl e
      rw [List.map_cons, exponent, exponent, hmark, caseless_sign, ← List.map_drop, caseless_decimal]

theorem caseless_suffix : Caseless suffix := by
  intro cs
  cases cs with
  | nil => rfl
  | cons c cs =>
      have hletter : (c.toLower = 'L' || c.toLower = 'l' || c.toLower = 'J' || c.toLower = 'j') =
          (c = 'L' || c = 'l' || c = 'J' || c = 'j') :=
        apply_toLower (f := fun c => (c = 'L' || c = 'l' || c = 'J' || c = 'j' : Bool)) rfl c
      rw [List.map_cons, suffix, suffix, hletter]

/-- One part of a literal and then another. -/
theorem caseless_add {f g : List Char → Nat} (hf : Caseless f) (hg : Caseless g) :
    Caseless fun cs => f cs + g (cs.drop (f cs)) := by
  intro cs
  simp only
  rw [hf, ← List.map_drop, hg]

theorem caseless_scale : Caseless scale :=
  caseless_add caseless_exponent caseless_suffix

theorem caseless_fraction : Caseless fraction :=
  caseless_add caseless_decimal caseless_scale

theorem caseless_based : Caseless based := by
  intro cs
  have hbinary (c : Char) : isBinary c.toLower = isBinary c := apply_toLower rfl c
  have hoctal (c : Char) : isOctal c.toLower = isOctal c := apply_toLower rfl c
  have hhexadecimal (c : Char) : isHexadecimal c.toLower = isHexadecimal c :=
    apply_toLower rfl c
  fun_cases based cs with
  | case1 cs => exact congrArg (based.count 2) (caseless_groups hbinary cs)
  | case2 cs => exact congrArg (based.count 2) (caseless_groups hoctal cs)
  | case3 cs => exact congrArg (based.count 3) (caseless_groups hhexadecimal cs)
  | case4 cs htwo height hsixteen =>
      rw [based]
      · exact map_toLower_ne_append ['2', '#'] rfl htwo
      · exact map_toLower_ne_append ['8', '#'] rfl height
      · exact map_toLower_ne_append ['1', '6', '#'] rfl hsixteen

theorem caseless_afterNumeral (n : Nat) : Caseless (afterNumeral n) := by
  intro cs
  by_cases hpoint : cs.head? = some '.'
  · obtain ⟨rest, rfl⟩ := List.head?_eq_some_iff.mp hpoint
    by_cases hrange : rest.head? = some '.'
    · obtain ⟨rest, rfl⟩ := List.head?_eq_some_iff.mp hrange
      rfl
    · have hlow : (rest.map Char.toLower).head? ≠ some '.' := mt (head?_map_toLower rfl).mp hrange
      rw [afterNumeral_point hrange, List.map_cons]
      exact (afterNumeral_point hlow).trans (by rw [caseless_fraction])
  · have hlow : (cs.map Char.toLower).head? ≠ some '.' := mt (head?_map_toLower rfl).mp hpoint
    rw [afterNumeral_plain hpoint, afterNumeral_plain hlow, caseless_exponent, caseless_scale]

theorem caseless_literal : Caseless literal := by
  intro cs
  rw [literal_eq, literal_eq, caseless_based, caseless_decimal, ← List.map_drop,
    caseless_afterNumeral]

end Number

/-! ### Durations -/

theorem Duration.caseless_anyForm : Caseless anyForm.fits := by
  refine Pattern.Classes.fits_map (classes_anyForm isDigit_toLower ?_ ?_)
  · intro c
    exact decide_eq_decide.mpr (toLower_eq_iff (by decide))
  · intro unit _ u _ c
    exact congrArg (fun d => decide (d = u)) (toLower_toLower c)

/-! ### Words -/

namespace Keyword

@[simp] theorem fold_toLower (c : Char) : fold c.toLower = fold c :=
  apply_toLower rfl c

theorem caseless_agreement (word : List Char) : Caseless (agreement word) := by
  intro cs
  induction word generalizing cs with
  | nil => simp [agreement]
  | cons w ws ih =>
      cases cs with
      | nil => rfl
      | cons c cs => rw [List.map_cons, agreement, agreement, fold_toLower, ih]

theorem caseless_fits (word : List Char) : Caseless (fits word) := by
  intro cs
  induction word generalizing cs with
  | nil => simp [fits]
  | cons w ws ih =>
      cases cs with
      | nil => rfl
      | cons c cs => rw [List.map_cons, fits, fits, fold_toLower, ih]

theorem caseless_longest? : Caseless longest? := by
  intro cs
  simp only [longest?, caseless_fits _ cs]

theorem caseless_reach : Caseless reach := by
  intro cs
  simp only [reach, caseless_agreement _ cs]

end Keyword

namespace Token

theorem caseless_runLength {p : Char → Bool} (hp : ∀ c, p c.toLower = p c) :
    Caseless (runLength p) := by
  intro cs
  rw [runLength, runLength, takeWhile_map_toLower hp, List.length_map]

theorem endsLine_toLower (c : Char) : endsLine c.toLower = endsLine c :=
  apply_toLower rfl c

theorem word_map_toLower (c : Char) (cs : List Char) :
    word c.toLower (cs.map Char.toLower) = word c cs := by
  have hstarts : startsWord c.toLower = startsWord c := apply_toLower rfl c
  have hcontinues (c : Char) : continuesWord c.toLower = continuesWord c :=
    apply_toLower rfl c
  have hlongest := Keyword.caseless_longest? (c :: cs)
  have hreach := Keyword.caseless_reach (c :: cs)
  rw [List.map_cons] at hlongest hreach
  rw [word, word, hlongest, hreach, hstarts, caseless_runLength hcontinues]

theorem caseless_delimited {close : Char} {givesUp : Char → Bool} (hclose : close.isAlpha = false)
    (hgivesUp : ∀ c, givesUp c.toLower = givesUp c) (kind : TokenKind) :
    Caseless (delimited kind close givesUp) := by
  intro cs
  have hcontains : (cs.map Char.toLower).contains close = cs.contains close := by
    rw [Bool.eq_iff_iff]
    simp [toLower_eq_iff hclose]
  have hinside (c : Char) : decide (c.toLower ≠ close) = decide (c ≠ close) := by
    simp [toLower_eq_iff hclose]
  have hbefore (c : Char) : (!givesUp c.toLower) = !givesUp c := by rw [hgivesUp]
  rw [delimited, delimited, hcontains, caseless_runLength hinside, caseless_runLength hbefore]

theorem caseless_timeLiteral : Caseless timeLiteral := by
  intro cs
  have hcontinues (c : Char) : continuesDuration c.toLower = continuesDuration c :=
    apply_toLower rfl c
  simp only [timeLiteral, takeWhile_map_toLower hcontinues, Duration.caseless_anyForm _,
    List.length_map]

theorem beforeCommentEnd_cons {c : Char} {cs : List Char} (h : c = '*' → cs.head? ≠ some ')') :
    beforeCommentEnd (c :: cs) = (beforeCommentEnd cs).map (· + 1) := by
  rw [beforeCommentEnd]
  rintro rest rfl rfl
  exact h rfl rfl

theorem caseless_beforeCommentEnd : Caseless beforeCommentEnd := by
  intro cs
  induction cs with
  | nil => rfl
  | cons c cs ih =>
      by_cases hend : c = '*' ∧ cs.head? = some ')'
      · obtain ⟨rfl, hcs⟩ := hend
        obtain ⟨rest, rfl⟩ := List.head?_eq_some_iff.mp hcs
        rfl
      · rw [not_and] at hend
        have hlow : c.toLower = '*' → (cs.map Char.toLower).head? ≠ some ')' := fun hc =>
          mt (head?_map_toLower rfl).mp (hend ((toLower_eq_iff rfl).mp hc))
        rw [List.map_cons, beforeCommentEnd_cons hlow, beforeCommentEnd_cons hend, ih]

theorem isDigit_of_isAlpha {c : Char} (h : c.isAlpha) : c.isDigit = false := by
  rw [← Bool.not_eq_true]
  intro hdigit
  have hle : c.val ≤ '9'.val := of_decide_eq_true (Bool.and_eq_true_iff.mp hdigit).2
  rw [isAlpha_eq, Bool.or_eq_true] at h
  rcases h with hupper | hlower
  · have hge : 'A'.val ≤ c.val := (of_decide_eq_true hupper).1
    exact absurd (UInt32.le_trans hge hle) (by decide)
  · have hge : 'a'.val ≤ c.val := of_decide_eq_true (Bool.and_eq_true_iff.mp hlower).1
    exact absurd (UInt32.le_trans hge hle) (by decide)

theorem eq_or_eq_of_toLower_eq {c : Char} (h : c.toLower = 't') : c = 'T' ∨ c = 't' := by
  by_cases hcapital : c.isUpper
  · have honly : (capitals.filter fun d => d.toLower = 't') = ['T'] := rfl
    have hc : c ∈ capitals.filter fun d => d.toLower = 't' :=
      List.mem_filter.mpr ⟨mem_capitals hcapital, decide_eq_true h⟩
    rw [honly, List.mem_singleton] at hc
    exact Or.inl hc
  · exact Or.inr (toLower_eq_self hcapital ▸ h)

/-- Whether a letter and what follows it open a time literal. -/
def opensTime (c : Char) (cs : List Char) : Bool :=
  c.toLower = 't' && cs.head? = some '#'

/-- A token that starts with a letter is a time literal or a word. -/
theorem munch_letter {c : Char} (h : c.isAlpha) (cs : List Char) :
    munch c cs = if opensTime c cs then timeLiteral cs.tail else word c cs := by
  cases htime : opensTime c cs with
  | true =>
      simp only [opensTime, Bool.and_eq_true, decide_eq_true_eq] at htime
      obtain ⟨hc, hcs⟩ := htime
      obtain ⟨rest, rfl⟩ := List.head?_eq_some_iff.mp hcs
      exact munch_time (eq_or_eq_of_toLower_eq hc) rest
  | false =>
      unfold munch
      rw [if_neg (by simp [isBlank_eq_false h (by decide)]), if_neg (by simp [isDigit_of_isAlpha h])]
      split
      case h_7 | h_8 => contradiction
      case h_29 => rfl
      all_goals contradiction

/-- A token that starts with no letter. -/
theorem caseless_munch {c : Char} (h : c.isAlpha = false) : Caseless (munch c) := by
  intro cs
  have hsmall : c.toLower = c := toLower_eq_self (not_isUpper_of_isAlpha_eq_false h)
  unfold munch
  by_cases hblank : isBlank c
  · have hblanks (c : Char) : isBlank c.toLower = isBlank c := apply_toLower rfl c
    rw [if_pos hblank, if_pos hblank, caseless_runLength hblanks]
  rw [if_neg hblank, if_neg hblank]
  by_cases hdigit : c.isDigit
  · have hliteral := Number.caseless_literal (c :: cs)
    rw [List.map_cons, hsmall] at hliteral
    rw [if_pos hdigit, if_pos hdigit, hliteral]
  rw [if_neg hdigit, if_neg hdigit]
  have hword : word c (cs.map Char.toLower) = word c cs := by
    rw [← word_map_toLower c cs, hsmall]
  have hnext {x : Char} {rest : List Char} (hx : x.isAlpha = false)
      (hlow : cs.map Char.toLower = x :: rest) :
      ∃ rest', cs = x :: rest' ∧ rest'.map Char.toLower = rest :=
    map_toLower_eq_append [x] (by simpa using hx) hlow
  have hother {x : Char} (hx : x.toLower = x)
      (hlow : ∀ rest, cs.map Char.toLower = x :: rest → False) (rest : List Char) :
      cs = x :: rest → False := by
    rintro rfl
    exact hlow (rest.map Char.toLower) (by rw [List.map_cons, hx])
  -- The cases are those of the text in small letters.
  split
  case h_1 rest heq =>
    obtain ⟨rest', rfl, rfl⟩ := hnext rfl heq
    have hline (c : Char) : (!endsLine c.toLower) = !endsLine c := by rw [endsLine_toLower]
    exact congrArg (fun n => (TokenKind.lineComment, n + 1)) (caseless_runLength hline rest')
  case h_3 rest heq =>
    obtain ⟨rest', rfl, rfl⟩ := hnext rfl heq
    simp only [caseless_beforeCommentEnd rest', List.length_map]
  case h_5 =>
    rw [contest_pragmaForms, contest_pragmaForms]
    exact caseless_delimited rfl (fun _ => rfl) _ cs
  case h_6 =>
    rw [contest_stringForms, contest_stringForms]
    exact caseless_delimited (by decide) endsLine_toLower _ cs
  case h_7 | h_8 => contradiction
  case h_14 hno =>
    have hrange := hother rfl hno
    simp only [Number.caseless_decimal cs, Number.caseless_fraction cs]
  case h_29 =>
    split
    case h_29 => exact hword
    all_goals simp_all
  -- Signs of two characters.
  case h_10 heq | h_13 heq | h_18 heq | h_20 heq | h_21 heq | h_23 heq | h_27 heq =>
    obtain ⟨rest', rfl, -⟩ := hnext rfl heq
    rfl
  -- Signs of one character that begin one of two.
  case h_2 hno | h_4 hno | h_11 hno | h_19 hno | h_24 hno | h_28 hno =>
    have hother := hother rfl hno
    cases cs with
    | nil => rfl
    | cons d cs => simp_all
  case h_22 hneq hle =>
    have hneq := hother rfl hneq
    have hle := hother rfl hle
    cases cs with
    | nil => rfl
    | cons d cs => simp_all
  all_goals rfl

theorem munch_map_toLower (c : Char) (cs : List Char) :
    munch c.toLower (cs.map Char.toLower) = munch c cs := by
  cases h : c.isAlpha with
  | true =>
      have hletter : c.toLower.isAlpha := by rw [isAlpha_toLower, h]
      have hopens : opensTime c.toLower (cs.map Char.toLower) = opensTime c cs := by
        simp only [opensTime, toLower_toLower, head?_map_toLower (show '#'.isAlpha = false from rfl)]
      rw [munch_letter h, munch_letter hletter, hopens, ← List.map_tail, caseless_timeLiteral,
        word_map_toLower]
  | false => rw [toLower_eq_self (not_isUpper_of_isAlpha_eq_false h), caseless_munch h]

/-! ### Tokens -/

/-- A token in small letters. -/
def lowered (t : Token) : Token :=
  { t with chars := t.chars.map Char.toLower }

@[simp] theorem kind_lowered (t : Token) : t.lowered.kind = t.kind := rfl

@[simp] theorem byteLength_lowered (t : Token) : byteLength t.lowered.chars = byteLength t.chars :=
  byteLength_map_toLower t.chars

@[simp] theorem span_lowered (t : Token) : t.lowered.span = t.span := by
  simp [lowered, span, stop]

/-- The tokens of a text in small letters are those of the text. -/
theorem lexFrom_map_toLower (start : Nat) (cs : List Char) :
    lexFrom start (cs.map Char.toLower) = (lexFrom start cs).map lowered := by
  fun_induction lexFrom start cs with
  | case1 => simp
  | case2 start c cs ih =>
      have hfirst : first start c.toLower (cs.map Char.toLower) = (first start c cs).lowered := by
        simp only [first, lowered, munch_map_toLower, List.map_cons, List.map_take]
      have hafter : afterFirst c.toLower (cs.map Char.toLower) = (afterFirst c cs).map Char.toLower := by
        rw [afterFirst, afterFirst, munch_map_toLower, List.map_drop]
      have hstop : (first start c cs).lowered.stop = (first start c cs).stop :=
        congrArg Span.stop (span_lowered _)
      rw [List.map_cons, lexFrom_cons, hfirst, hafter, hstop, ih, List.map_cons]

theorem caseless_errorMessage : Caseless errorMessage := by
  intro cs
  fun_cases errorMessage cs with
  | case1 | case2 | case3 | case4 | case5 => rfl
  | case6 =>
      rename_i hT ht hquote hcomment hpragma
      -- Neither does the text in small letters begin in one of these ways.
      rw [errorMessage]
      · intro rest hlow
        obtain ⟨c, -, -, hc, -⟩ := List.map_eq_cons_iff.mp hlow
        have hsmall := toLower_toLower c
        rw [hc] at hsmall
        contradiction
      · intro rest hlow
        obtain ⟨c, behind, rfl, hc, hbehind⟩ := List.map_eq_cons_iff.mp hlow
        obtain ⟨rest', rfl, -⟩ := map_toLower_eq_append ['#'] rfl hbehind
        rcases eq_or_eq_of_toLower_eq hc with rfl | rfl
        · exact hT rest' rfl
        · exact ht rest' rfl
      · exact map_toLower_ne_append ['\''] rfl hquote
      · exact map_toLower_ne_append ['(', '*'] rfl hcomment
      · exact map_toLower_ne_append ['\x7b'] rfl hpragma

end Token

end StructuredText
