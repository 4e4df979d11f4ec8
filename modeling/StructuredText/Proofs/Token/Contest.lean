import StructuredText.Proofs.Token.Duration

/-!
How the contests of the lexer end. A string or a pragma goes up to the next closing character, if there is
one; what begins with `T#` goes as far as it looks like a time literal, and whether it is one depends on
all of that run: no duration wins against the rest of a longer run.
-/

namespace StructuredText.Token

open Pattern

/-- The token from an opening character to the next closing one. Without one it is an error, which
ends where `givesUp` says, or at the end of the text. -/
def delimited (kind : TokenKind) (close : Char) (givesUp : Char → Bool) (cs : List Char) :
    TokenKind × Nat :=
  if cs.contains close then (kind, runLength (· ≠ close) cs + 1)
  else (.error, runLength (fun c => !givesUp c) cs)

/-- The token that starts with `T#`, of which the argument is what follows the sign. -/
def timeLiteral (cs : List Char) : TokenKind × Nat :=
  let run := cs.takeWhile continuesDuration
  (if Duration.anyForm.fits run then .timeLiteral else .error, run.length + 1)

variable {p : Char → Bool} {c : Char} {cs front body rest : List Char}

/-! ### Runs -/

theorem prefix_takeWhile (hbegin : front <+: cs) (h : ∀ c ∈ front, p c) : front <+: cs.takeWhile p := by
  obtain ⟨rest, rfl⟩ := hbegin
  rw [List.takeWhile_append_of_pos h]
  exact List.prefix_append _ _

theorem takeWhile_append_cons (h : ∀ c ∈ body, p c) (hc : p c = false) :
    (body ++ c :: rest).takeWhile p = body := by
  rw [List.takeWhile_append_of_pos h, List.takeWhile_cons_of_neg (by simp [hc]), List.append_nil]

theorem takeWhile_of_same {q : Char → Bool} (h : ∀ c ∈ cs, p c = q c) : cs.takeWhile p = cs.takeWhile q := by
  induction cs with
  | nil => rfl
  | cons c cs ih =>
      obtain ⟨hc, hcs⟩ := List.forall_mem_cons.mp h
      rw [List.takeWhile_cons, List.takeWhile_cons, hc, ih hcs]

/-! ### Strings and pragmas -/

theorem matches_closed {opening close : Char} :
    (Pattern.seq (.char opening) (.seq (.many (.one (· ≠ close))) (.char close))).Matches cs ↔
      ∃ body, cs = opening :: (body ++ [close]) ∧ ∀ c ∈ body, c ≠ close := by
  rw [matches_seq_char]
  constructor
  · rintro ⟨_, rfl, body, _, rfl, hbody, hclose⟩
    obtain rfl := matches_char.mp hclose
    exact ⟨body, rfl, by simpa using matches_many_one.mp hbody⟩
  · rintro ⟨body, rfl, hbody⟩
    exact ⟨_, rfl, body, _, rfl, matches_many_one.mpr (by simpa using hbody), matches_char.mpr rfl⟩

theorem matches_unclosed {opening : Char} :
    (Pattern.seq (.char opening) (.many (.one p))).Matches cs ↔
      ∃ run, cs = opening :: run ∧ ∀ c ∈ run, p c := by
  simp only [matches_seq_char, matches_many_one]

section

variable {opening close : Char} {unclosed givesUp : Char → Bool} {kind : TokenKind}

/-- Both patterns of what a character closes: closed, and as far as it goes if it is not. -/
def closedForms (opening close : Char) (unclosed : Char → Bool) (kind : TokenKind) : List Contender :=
  [⟨kind, 2, .seq (.char opening) (.seq (.many (.one (· ≠ close))) (.char close))⟩,
    ⟨.error, 1, .seq (.char opening) (.many (.one unclosed))⟩]

/-- With a closing character the closed match wins: another one ends at the same place, and what is not closed
ends before it. -/
theorem contest_of_mem (hunclosed : ∀ c, unclosed c → c ≠ close) (hclose : close ∈ cs) :
    contest (closedForms opening close unclosed kind) opening cs = (kind, runLength (· ≠ close) cs + 1) := by
  obtain ⟨body, rest, rfl, hbody⟩ := List.eq_append_cons_of_mem hclose
  have hne : ∀ c ∈ body, decide (c ≠ close) = true := by
    intro c hc
    exact decide_eq_true fun heq => hbody (heq ▸ hc)
  have hrun : (body ++ close :: rest).takeWhile (· ≠ close) = body :=
    takeWhile_append_cons hne (by simp)
  have hsplit : body ++ close :: rest = (body ++ [close]) ++ rest := by simp
  rw [runLength, hrun, hsplit]
  refine (contest_eq List.mem_cons_self (matches_closed.mpr ⟨body, rfl, by simpa using hne⟩) ?_).trans
    (by simp)
  rw [← hsplit]
  simp only [List.forall_mem_cons, List.not_mem_nil, false_implies, implies_true, and_true]
  refine ⟨fun other hbegin hother => ?_, fun other hbegin hother => ?_⟩
  · obtain ⟨body', rfl, hbody'⟩ := matches_closed.mp hother
    obtain ⟨rest', hrest'⟩ := (List.cons_prefix_cons.mp hbegin).2
    have hsame : body' = body := by
      rw [← hrun, ← hrest', List.append_assoc, List.singleton_append]
      exact (takeWhile_append_cons (by simpa using hbody') (by simp)).symm
    simp [hsame]
  · obtain ⟨run, rfl, hall⟩ := matches_unclosed.mp hother
    have hle : run <+: (body ++ close :: rest).takeWhile (· ≠ close) :=
      prefix_takeWhile (List.cons_prefix_cons.mp hbegin).2 fun c hc =>
        decide_eq_true (hunclosed c (hall c hc))
    have := hrun ▸ hle.length_le
    simp
    omega

/-- Without one nothing is closed, and the longest run wins. -/
theorem contest_of_notMem (hclose : close ∉ cs) :
    contest (closedForms opening close unclosed kind) opening cs = (.error, runLength unclosed cs) := by
  have hrun : ∀ c ∈ cs.takeWhile unclosed, unclosed c := List.all_eq_true.mp List.all_takeWhile
  rw [runLength]
  conv_lhs => rw [← List.takeWhile_append_dropWhile (p := unclosed) (l := cs)]
  refine contest_eq (List.mem_cons_of_mem _ List.mem_cons_self) (matches_unclosed.mpr ⟨_, rfl, hrun⟩) ?_
  rw [List.takeWhile_append_dropWhile]
  simp only [List.forall_mem_cons, List.not_mem_nil, false_implies, implies_true, and_true]
  refine ⟨fun other hbegin hother => ?_, fun other hbegin hother => ?_⟩
  · obtain ⟨body, rfl, -⟩ := matches_closed.mp hother
    exact absurd ((List.cons_prefix_cons.mp hbegin).2.subset (by simp)) hclose
  · obtain ⟨run, rfl, hall⟩ := matches_unclosed.mp hother
    have hle := (prefix_takeWhile (List.cons_prefix_cons.mp hbegin).2 hall).length_le
    exact (Nat.lt_or_eq_of_le (Nat.succ_le_succ hle)).imp id fun heq => ⟨heq, .inl trivial⟩

/-- The contest of what is closed and what is not. -/
theorem contest_closed (hunclosed : ∀ c, unclosed c = (c ≠ close && !givesUp c)) (cs : List Char) :
    contest (closedForms opening close unclosed kind) opening cs = delimited kind close givesUp cs := by
  have hne (c : Char) (hc : unclosed c) : c ≠ close := by
    rw [hunclosed, Bool.and_eq_true] at hc
    exact of_decide_eq_true hc.1
  by_cases hclose : close ∈ cs
  · rw [contest_of_mem hne hclose, delimited, if_pos (by simpa using hclose)]
  · -- Both classes hold of the same characters.
    have hsame : ∀ c ∈ cs, unclosed c = !givesUp c := by
      intro c hc
      have hne : c ≠ close := fun heq => hclose (heq ▸ hc)
      rw [hunclosed, decide_eq_true hne, Bool.true_and]
    rw [contest_of_notMem hclose, delimited, if_neg (by simpa using hclose), runLength, runLength,
      takeWhile_of_same hsame]

end

theorem contest_stringForms (cs : List Char) :
    contest stringForms '\'' cs = delimited .stringLiteral '\'' endsLine cs :=
  contest_closed (fun _ => rfl) cs

theorem contest_pragmaForms (cs : List Char) :
    contest pragmaForms '\x7b' cs = delimited .pragma '\x7d' (fun _ => false) cs :=
  contest_closed (fun _ => (Bool.and_true _).symm) cs

/-! ### Time literals -/

theorem matches_timed {argument : Pattern} : (timed argument).Matches cs ↔
    ∃ c rest, cs = c :: '#' :: rest ∧ (c = 'T' ∨ c = 't') ∧ argument.Matches rest := by
  rw [timed, matches_seq_one]
  constructor
  · rintro ⟨c, _, rfl, hc, hback⟩
    obtain ⟨rest, rfl, hrest⟩ := matches_seq_char.mp hback
    exact ⟨c, rest, rfl, by simpa using hc, hrest⟩
  · rintro ⟨c, rest, rfl, hc, hrest⟩
    exact ⟨c, _, rfl, by simpa using hc, matches_seq_char.mpr ⟨rest, rfl, hrest⟩⟩

theorem isAlpha_of_isAlpha_toLower {c : Char} (h : c.toLower.isAlpha) : c.isAlpha := by
  unfold Char.toLower at h
  split at h
  next hupper => exact Bool.or_eq_true_iff.mpr (.inl (decide_eq_true hupper))
  next => exact h

/-- A duration is made of the characters that a time literal may hold. -/
theorem continuesDuration_of_matches (h : Duration.anyForm.Matches cs) :
    ∀ c ∈ cs, continuesDuration c := by
  have hclasses : Duration.anyForm.Classes fun accepts => ∀ c, accepts c → continuesDuration c := by
    refine Duration.classes_anyForm ?_ ?_ ?_
    · intro c hc
      simp [continuesDuration, Char.isAlphanum, hc]
    · intro c hc
      simp [continuesDuration, of_decide_eq_true hc]
    · intro unit hunit u hu c hc
      have hletters : Duration.units.all fun unit => unit.all Char.isAlpha := by decide
      have hletter := List.all_eq_true.mp (List.all_eq_true.mp hletters unit hunit) u hu
      rw [← of_decide_eq_true hc] at hletter
      simp [continuesDuration, Char.isAlphanum, isAlpha_of_isAlpha_toLower hletter]
  exact hclasses.forall_mem h

/-- The contenders for what begins with `T#`. -/
theorem mem_timeForms {v : Contender} (h : v ∈ timeForms) :
    (∃ p, v = ⟨.timeLiteral, 10, timed p⟩ ∧ p ∈ Duration.patterns Duration.units) ∨
      v = ⟨.error, 1, timed (.many (.one continuesDuration))⟩ ∨ v = ⟨.ident, 2, namePattern⟩ := by
  rw [timeForms, List.mem_append, List.mem_map] at h
  rcases h with ⟨p, hp, rfl⟩ | h
  · exact .inl ⟨p, rfl, hp⟩
  · exact .inr (by simpa using h)

/-- No match for what begins with `T#` goes beyond the run that looks like a time literal, and a duration that
is as long as the run is the run. -/
theorem timeForms_within {v : Contender} {c : Char} {other : List Char} (hv : v ∈ timeForms)
    (hbegin : other <+: c :: '#' :: rest) (hother : v.pattern.Matches other) :
    v.kind = .timeLiteral ∧ v.priority = 10 ∧ (∃ arg, other = c :: '#' :: arg ∧
        arg <+: rest.takeWhile continuesDuration ∧ Duration.anyForm.Matches arg) ∨
      v.kind = .error ∧ v.priority = 1 ∧ other.length ≤ (rest.takeWhile continuesDuration).length + 2 ∨
      other.length < 2 := by
  rcases mem_timeForms hv with ⟨p, rfl, hp⟩ | rfl | rfl
  · obtain ⟨d, arg, rfl, -, harg⟩ := matches_timed.mp hother
    obtain ⟨rfl, hsign⟩ := List.cons_prefix_cons.mp hbegin
    have hany : Duration.anyForm.Matches arg := matches_oneOf.mpr ⟨p, hp, harg⟩
    exact .inl ⟨rfl, rfl, arg, rfl, prefix_takeWhile (List.cons_prefix_cons.mp hsign).2
      (continuesDuration_of_matches hany), hany⟩
  · obtain ⟨d, arg, rfl, -, harg⟩ := matches_timed.mp hother
    obtain ⟨rfl, hsign⟩ := List.cons_prefix_cons.mp hbegin
    have hle := (prefix_takeWhile (List.cons_prefix_cons.mp hsign).2 (matches_many_one.mp harg)).length_le
    exact .inr (.inl ⟨rfl, rfl, Nat.add_le_add_right hle 2⟩)
  · obtain ⟨d, name, rfl, -, hname⟩ := matches_seq_one.mp hother
    have hall := matches_many_one.mp hname
    cases name with
    | nil => exact .inr (.inr Nat.one_lt_two)
    | cons e name =>
        obtain ⟨rfl, hrest⟩ := List.cons_prefix_cons.mp hbegin
        obtain ⟨rfl, -⟩ := List.cons_prefix_cons.mp hrest
        exact absurd (hall _ List.mem_cons_self) (by decide)

theorem contest_timeForms {c : Char} (hc : c = 'T' ∨ c = 't') (rest : List Char) :
    contest timeForms c ('#' :: rest) = timeLiteral rest := by
  have hall : ∀ d ∈ rest.takeWhile continuesDuration, continuesDuration d :=
    List.all_eq_true.mp List.all_takeWhile
  have hsplit : '#' :: rest =
      ('#' :: rest.takeWhile continuesDuration) ++ rest.dropWhile continuesDuration := by
    rw [List.cons_append, List.takeWhile_append_dropWhile]
  rw [timeLiteral]
  cases hfits : Duration.anyForm.fits (rest.takeWhile continuesDuration) with
  | true =>
      obtain ⟨p, hp, hmatch⟩ := matches_oneOf.mp ((fits_iff _ _).mp hfits)
      have hw : (⟨.timeLiteral, 10, timed p⟩ : Contender) ∈ timeForms :=
        List.mem_append_left _ (List.mem_map_of_mem hp)
      conv_lhs => rw [hsplit]
      refine contest_eq hw (matches_timed.mpr ⟨c, _, rfl, hc, hmatch⟩) fun v hv other hbegin hother => ?_
      rw [← hsplit] at hbegin
      rw [List.length_cons]
      rcases timeForms_within hv hbegin hother with
        ⟨hkind, -, arg, rfl, harg, -⟩ | ⟨-, hpriority, hle⟩ | hlt
      · have := harg.length_le
        rw [List.length_cons, List.length_cons]
        exact (Nat.lt_or_eq_of_le (by omega)).imp id fun heq => ⟨heq, .inl hkind⟩
      · exact (Nat.lt_or_eq_of_le hle).imp id fun heq => ⟨heq, .inr (hpriority.trans_lt (by decide : 1 < 10))⟩
      · omega
  | false =>
      have hw : (⟨.error, 1, timed (.many (.one continuesDuration))⟩ : Contender) ∈ timeForms :=
        List.mem_append_right _ List.mem_cons_self
      conv_lhs => rw [hsplit]
      refine contest_eq hw (matches_timed.mpr ⟨c, _, rfl, hc, matches_many_one.mpr hall⟩)
        fun v hv other hbegin hother => ?_
      rw [← hsplit] at hbegin
      rw [List.length_cons]
      rcases timeForms_within hv hbegin hother with
        ⟨-, -, arg, rfl, harg, hmatch⟩ | ⟨hkind, -, hle⟩ | hlt
      · -- A duration as long as the run would be the run.
        have hne : arg.length ≠ (rest.takeWhile continuesDuration).length := by
          intro heq
          rw [harg.eq_of_length heq, ← fits_iff, hfits] at hmatch
          cases hmatch
        have := harg.length_le
        rw [List.length_cons, List.length_cons]
        omega
      · exact (Nat.lt_or_eq_of_le hle).imp id fun heq => ⟨heq, .inl hkind⟩
      · omega

/-! ### Tokens -/

theorem munch_string (cs : List Char) : munch '\'' cs = delimited .stringLiteral '\'' endsLine cs :=
  contest_stringForms cs

theorem munch_pragma (cs : List Char) :
    munch '\x7b' cs = delimited .pragma '\x7d' (fun _ => false) cs :=
  contest_pragmaForms cs

theorem munch_time {c : Char} (hc : c = 'T' ∨ c = 't') (rest : List Char) :
    munch c ('#' :: rest) = timeLiteral rest := by
  rw [← contest_timeForms hc]
  rcases hc with rfl | rfl
  · rfl
  · rfl

end StructuredText.Token
