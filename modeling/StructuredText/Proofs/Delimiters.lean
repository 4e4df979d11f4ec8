import StructuredText.Proofs.Diagnostics
import StructuredText.Proofs.Token.Blanked
import StructuredText.Proofs.Tokens

/-!
Delimiters. A string, a pragma or a block comment ends where its closing mark first stands, a line comment
with its line; without a closing mark there is an error, of which the extent depends on what was opened.
The messages about missing marks are given to these errors only.
-/

namespace StructuredText.Token

/-- A line, and what is behind it: the end of the text, or a character that ends lines. -/
def SplitsLine (line rest : List Char) : Prop :=
  (∀ c ∈ line, endsLine c = false) ∧ ∀ c ∈ rest.head?, endsLine c

/-- The front of a text is a whole comment, string or pragma of a kind, and the rest is behind it. -/
inductive Closed : TokenKind → List Char → List Char → Prop
  | string {body : List Char} (h : '\'' ∉ body) (rest : List Char) :
      Closed .stringLiteral ('\'' :: (body ++ ['\''])) rest
  | pragma {body : List Char} (h : '\x7d' ∉ body) (rest : List Char) :
      Closed .pragma ('\x7b' :: (body ++ ['\x7d'])) rest
  | blockComment {body : List Char} (h : ¬['*', ')'] <:+: body) (rest : List Char) :
      Closed .blockComment ('(' :: '*' :: (body ++ ['*', ')'])) rest
  | lineComment {line rest : List Char} (h : SplitsLine line rest) :
      Closed .lineComment ('/' :: '/' :: line) rest

/-- The front of a text is as much as is given up of a string, a pragma or a block comment that has no
end, and the rest is behind it. The message says what has no end. -/
inductive Unclosed : String → List Char → List Char → Prop
  | string {line rest : List Char} (h : '\'' ∉ line ++ rest) (hline : SplitsLine line rest) :
      Unclosed "unterminated string literal" ('\'' :: line) rest
  | pragma {body : List Char} (h : '\x7d' ∉ body) : Unclosed "unterminated pragma" ('\x7b' :: body) []
  | blockComment {body : List Char} (h : ¬['*', ')'] <:+: body) :
      Unclosed "unterminated block comment" ('(' :: '*' :: body) []

variable {c : Char} {cs body line rest chars : List Char} {kind : TokenKind} {message : String}

/-! ### Extents -/

theorem runLength_append {p : Char → Bool} {front : List Char} (h : ∀ x ∈ front, p x)
    (hrest : ∀ x ∈ rest.head?, p x = false) : runLength p (front ++ rest) = front.length := by
  have hnone : rest.takeWhile p = [] := by
    cases rest with
    | nil => rfl
    | cons x rest => exact List.takeWhile_cons_of_neg (by simp [hrest x rfl])
  rw [runLength, List.takeWhile_append_of_pos h, hnone, List.append_nil]

theorem runLength_line (h : SplitsLine line rest) :
    runLength (fun c => !endsLine c) (line ++ rest) = line.length :=
  runLength_append (fun x hx => by simp [h.1 x hx]) fun x hx => by simp [h.2 x hx]

theorem exists_splitsLine (cs : List Char) : ∃ line rest, cs = line ++ rest ∧ SplitsLine line rest := by
  refine ⟨cs.takeWhile fun c => !endsLine c, cs.dropWhile fun c => !endsLine c,
    List.takeWhile_append_dropWhile.symm, fun x hx => ?_, fun x hx => ?_⟩
  · simpa using List.all_eq_true.mp List.all_takeWhile x hx
  · simpa [Option.mem_def.mp hx] using List.head?_dropWhile_not (fun c => !endsLine c) cs

theorem delimited_closed {close : Char} (h : close ∉ body) (kind : TokenKind) (givesUp : Char → Bool)
    (rest : List Char) :
    delimited kind close givesUp (body ++ [close] ++ rest) = (kind, (body ++ [close]).length) := by
  have hrun : runLength (· ≠ close) (body ++ ([close] ++ rest)) = body.length := by
    refine runLength_append (fun x hx => decide_eq_true ?_) (by simp)
    rintro rfl
    exact h hx
  rw [delimited, if_pos (by simp), List.append_assoc, hrun, List.length_append, List.length_singleton]

theorem delimited_unclosed {close : Char} (h : close ∉ cs) (kind : TokenKind)
    (givesUp : Char → Bool) :
    delimited kind close givesUp cs = (.error, runLength (fun c => !givesUp c) cs) := by
  simp [delimited, h]

/-- The closing mark of a block comment does not stand at the front of a text. -/
theorem not_commentEnd_prefix (h : ∀ rest, c = '*' → cs = ')' :: rest → False) :
    ¬['*', ')'] <+: c :: cs := by
  rintro ⟨rest, hrest⟩
  obtain ⟨rfl, rfl⟩ := List.cons.inj hrest
  exact h rest rfl rfl

theorem beforeCommentEnd_eq_none (h : ¬['*', ')'] <:+: cs) : beforeCommentEnd cs = none := by
  fun_induction beforeCommentEnd cs with
  | case1 cs => exact absurd ⟨[], cs, rfl⟩ h
  | case2 c cs _ ih => rw [ih fun htail => h (List.infix_cons htail), Option.map_none]
  | case3 => rfl

theorem beforeCommentEnd_closed (h : ¬['*', ')'] <:+: body) (rest : List Char) :
    beforeCommentEnd (body ++ ['*', ')'] ++ rest) = some body.length := by
  induction body with
  | nil => rfl
  | cons c body ih =>
      rw [List.cons_append, List.cons_append, beforeCommentEnd, ih fun htail => h (List.infix_cons htail)]
      · rfl
      · rintro rest' rfl hrest'
        cases body with
        | nil => cases hrest'
        | cons d body =>
            obtain ⟨rfl, -⟩ := List.cons.inj hrest'
            exact h ⟨[], body, rfl⟩

theorem exists_commentEnd (h : ['*', ')'] <:+: cs) :
    ∃ body rest, cs = body ++ ['*', ')'] ++ rest ∧ ¬['*', ')'] <:+: body := by
  fun_induction beforeCommentEnd cs with
  | case1 cs => exact ⟨[], cs, rfl, by simp⟩
  | case2 c cs hend ih =>
      have hfront := not_commentEnd_prefix hend
      obtain ⟨body, rest, rfl, hbody⟩ := ih ((List.infix_cons_iff.mp h).resolve_left hfront)
      refine ⟨c :: body, rest, rfl, fun hinfix => ?_⟩
      rcases List.infix_cons_iff.mp hinfix with hbegins | hinside
      · rw [List.append_assoc] at hfront
        exact hfront (hbegins.trans (List.prefix_append (c :: body) _))
      · exact hbody hinside
  | case3 => simp at h

/-! ### First tokens -/

/-- The first token of a text of which the extent is known. -/
theorem head?_lex {front : List Char} (h : munch c (front ++ rest) = (kind, front.length)) :
    (lex (c :: front ++ rest)).head? = some ⟨kind, c :: front, 0⟩ := by
  rw [lex, List.cons_append, lexFrom_cons, List.head?_cons, first, h, List.take_left]

theorem head?_lex_of_closed (h : Closed kind chars rest) :
    (lex (chars ++ rest)).head? = some ⟨kind, chars, 0⟩ := by
  cases h with
  | string h => exact head?_lex ((munch_string _).trans (delimited_closed h .stringLiteral endsLine rest))
  | pragma h => exact head?_lex ((munch_pragma _).trans (delimited_closed h .pragma (fun _ => false) rest))
  | @blockComment body h =>
      refine head?_lex ?_
      rw [List.cons_append, munch_comment (beforeCommentEnd_closed h rest)]
      simp
  | @lineComment line _ h =>
      have hmunch : munch '/' ('/' :: line ++ rest) =
          (.lineComment, runLength (fun c => !endsLine c) (line ++ rest) + 1) := rfl
      rw [runLength_line h] at hmunch
      exact head?_lex hmunch

theorem head?_lex_of_unclosed (h : Unclosed message chars rest) :
    (lex (chars ++ rest)).head? = some ⟨.error, chars, 0⟩ := by
  cases h with
  | @string line _ h hline =>
      have hmunch : munch '\'' (line ++ rest) =
          (.error, runLength (fun c => !endsLine c) (line ++ rest)) :=
        (munch_string _).trans (delimited_unclosed h .stringLiteral endsLine)
      rw [runLength_line hline] at hmunch
      exact head?_lex hmunch
  | @pragma body h =>
      refine head?_lex ?_
      rw [List.append_nil]
      have hmunch : munch '\x7b' body = (.error, runLength (fun _ => true) body) :=
        (munch_pragma _).trans (delimited_unclosed h .pragma fun _ => false)
      rw [hmunch, runLength_eq_length fun _ _ => rfl]
  | @blockComment body h =>
      refine head?_lex ?_
      rw [List.append_nil]
      simp [munch, isBlank, beforeCommentEnd_eq_none h]

theorem errorMessage_of_unclosed (h : Unclosed message chars rest) : errorMessage chars = message := by
  cases h <;> rfl

/-! ### Texts that open something -/

/-- What opens a string, a pragma, a block comment and a line comment. -/
def openingMarks : List (List Char) :=
  [['\''], ['\x7b'], ['(', '*'], ['/', '/']]

theorem exists_extent {source : List Char} (h : ∃ mark ∈ openingMarks, mark <+: source) :
    ∃ chars rest, source = chars ++ rest ∧
      ((∃ kind, Closed kind chars rest) ∨ ∃ message, Unclosed message chars rest) := by
  have hsplit {close : Char} {cs : List Char} (hclose : close ∈ cs) :
      ∃ body rest, cs = body ++ [close] ++ rest ∧ close ∉ body := by
    obtain ⟨body, rest, rfl, hbody⟩ := List.eq_append_cons_of_mem hclose
    exact ⟨body, rest, by simp, hbody⟩
  obtain ⟨mark, hmark, cs, rfl⟩ := h
  simp only [openingMarks, List.mem_cons, List.not_mem_nil, or_false] at hmark
  rcases hmark with rfl | rfl | rfl | rfl
  · by_cases hclose : '\'' ∈ cs
    · obtain ⟨body, rest, rfl, hbody⟩ := hsplit hclose
      exact ⟨_, rest, rfl, .inl ⟨_, .string hbody rest⟩⟩
    · obtain ⟨line, rest, rfl, hline⟩ := exists_splitsLine cs
      exact ⟨_, rest, rfl, .inr ⟨_, .string hclose hline⟩⟩
  · by_cases hclose : '\x7d' ∈ cs
    · obtain ⟨body, rest, rfl, hbody⟩ := hsplit hclose
      exact ⟨_, rest, rfl, .inl ⟨_, .pragma hbody rest⟩⟩
    · exact ⟨_, [], (List.append_nil _).symm, .inr ⟨_, .pragma hclose⟩⟩
  · by_cases hend : ['*', ')'] <:+: cs
    · obtain ⟨body, rest, rfl, hbody⟩ := exists_commentEnd hend
      exact ⟨_, rest, rfl, .inl ⟨_, .blockComment hbody rest⟩⟩
    · exact ⟨_, [], (List.append_nil _).symm, .inr ⟨_, .blockComment hend⟩⟩
  · obtain ⟨line, rest, rfl, hline⟩ := exists_splitsLine cs
    exact ⟨_, rest, rfl, .inl ⟨_, .lineComment hline⟩⟩

/-- The messages about missing ends. -/
def endMessages : List String :=
  ["unterminated string literal", "unterminated pragma", "unterminated block comment"]

theorem openingMark_of_message (h : errorMessage chars ∈ endMessages) :
    ∃ mark ∈ openingMarks, mark <+: chars := by
  unfold errorMessage at h
  split at h
  · exact absurd h (by decide)
  · exact absurd h (by decide)
  · exact ⟨['\''], by decide, _, rfl⟩
  · exact ⟨['(', '*'], by decide, _, rfl⟩
  · exact ⟨['\x7b'], by decide, _, rfl⟩
  · exact absurd h (by decide)

/-- A text that begins with an opening mark has a whole string, pragma or comment at its front, or one
that has no end. The first is the first token of the text. The second is an error token, which is reported
with a message of its own; and wherever an error token has one of these messages, what has no end is there,
in the text from the token on. -/
theorem delimiters_exact :
    (∀ source, (∃ mark ∈ openingMarks, mark <+: source) → ∃ chars rest, source = chars ++ rest ∧
      ((∃ kind, Closed kind chars rest) ∨ ∃ message, Unclosed message chars rest)) ∧
    (∀ kind chars rest, Closed kind chars rest →
      (lex (chars ++ rest)).head? = some ⟨kind, chars, 0⟩) ∧
    (∀ message chars rest, Unclosed message chars rest →
      (lex (chars ++ rest)).head? = some ⟨.error, chars, 0⟩ ∧
        ⟨.lexical, message, ⟨0, byteLength chars⟩⟩ ∈ (Parse.ofText (chars ++ rest)).diagnostics) ∧
    ∀ source before t after, lex source = before ++ t :: after → t.kind = .error →
      errorMessage t.chars ∈ endMessages → ∃ rest,
        source = before.flatMap Token.chars ++ (t.chars ++ rest) ∧
          Unclosed (errorMessage t.chars) t.chars rest := by
  refine ⟨fun source => exists_extent, fun kind chars rest => head?_lex_of_closed,
    fun message chars rest h => ⟨head?_lex_of_unclosed h, ?_⟩,
    fun source before t after h hkind hmessage => ?_⟩
  · have hmem := List.mem_of_mem_head? (head?_lex_of_unclosed h)
    refine Parse.mem_diagnostics.mpr (.inl ⟨_, hmem, rfl, ?_⟩)
    rw [Diagnostic.ofErrorToken, errorMessage_of_unclosed h, span, stop, Nat.zero_add]
  · obtain ⟨n, c, cs, rfl, hsource, -⟩ := exists_first_of_split h
    -- What the token opens is at the front of the text from the token on.
    obtain ⟨mark, hmark, hbegins⟩ := openingMark_of_message hmessage
    have hfront : mark <+: c :: cs :=
      hbegins.trans ⟨afterFirst c cs, first_append_afterFirst n c cs⟩
    obtain ⟨chars, rest, hsplit, hextent⟩ := exists_extent ⟨mark, hmark, hfront⟩
    have hhead : (lex (chars ++ rest)).head? = some (first 0 c cs) := by
      rw [← hsplit, lex, lexFrom_cons, List.head?_cons]
    rcases hextent with ⟨kind, hclosed⟩ | ⟨message, hunclosed⟩
    · have hfirst := Option.some.inj (hhead.symm.trans (head?_lex_of_closed hclosed))
      have herror : kind = .error := (congrArg Token.kind hfirst).symm.trans hkind
      subst herror
      cases hclosed
    · have hfirst := Option.some.inj (hhead.symm.trans (head?_lex_of_unclosed hunclosed))
      have hchars : (first n c cs).chars = chars := congrArg Token.chars hfirst
      rw [hchars, errorMessage_of_unclosed hunclosed]
      exact ⟨rest, hsplit ▸ hsource, hunclosed⟩

/-- The asterisk that opens a comment does not close it, and a string without an end is given up with its
line. -/
theorem delimiters_exact_overlapping :
    (lex "(*)*)'x\n".toList).head? = some ⟨.blockComment, "(*)*)".toList, 0⟩ ∧
      (lex "'x\n".toList).head? = some ⟨.error, "'x".toList, 0⟩ := by
  obtain ⟨-, hclosed, hunclosed, -⟩ := delimiters_exact
  have hbody : ¬['*', ')'] <:+: [')'] := by decide
  have hcomment : Closed .blockComment "(*)*)".toList "'x\n".toList := .blockComment hbody _
  have hline : SplitsLine ['x'] ['\n'] := ⟨by simp [endsLine], by simp [endsLine]⟩
  have hstring : Unclosed "unterminated string literal" "'x".toList "\n".toList :=
    .string (by decide) hline
  exact ⟨hclosed _ _ _ hcomment, (hunclosed _ _ _ hstring).1⟩

end StructuredText.Token
