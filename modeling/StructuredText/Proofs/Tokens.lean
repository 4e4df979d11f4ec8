import StructuredText.Proofs.Token.Matching

/-!
The tokens of a text divide it, and behind each of them the text can be taken up again: what is left of
it has, on its own, the same tokens at earlier places. The tokens are those that the matcher gives one
after another, so this holds at the places between a numeral and `..` too, which no match ends at.
-/

namespace StructuredText

namespace Span

/-- The spans have an inside each, and lie end to end from one byte to another. -/
def Partition (stop : Nat) : Nat → List Span → Prop
  | start, [] => start = stop
  | start, s :: spans => s.start = start ∧ s.start < s.stop ∧ Partition stop s.stop spans

end Span

namespace Token

theorem partition_lexFrom (start : Nat) (cs : List Char) :
    Span.Partition (start + byteLength cs) start ((lexFrom start cs).map span) := by
  fun_induction lexFrom start cs with
  | case1 => rfl
  | case2 start c cs ih =>
      have hpos : start < (first start c cs).stop :=
        start_lt_stop_of_mem_lexFrom (lexFrom_cons start c cs ▸ List.mem_cons_self)
      have hbytes : start + byteLength (c :: cs) =
          (first start c cs).stop + byteLength (afterFirst c cs) := by
        rw [← first_append_afterFirst start, byteLength_append, ← Nat.add_assoc]
        rfl
      rw [hbytes]
      exact ⟨rfl, hpos, ih⟩

/-- A token of a text is a stretch of it, and its span is that of the stretch. -/
theorem stretch_of_mem_lex {source : List Char} {t : Token} (h : t ∈ lex source) :
    ∃ before after, source = before ++ t.chars ++ after ∧
      t.span = ⟨byteLength before, byteLength (before ++ t.chars)⟩ := by
  obtain ⟨before, after, hsplit⟩ := List.append_of_mem h
  have hstart : t.start = 0 + byteLength (before.flatMap chars) := start_lexFrom hsplit
  have hsource : (before ++ t :: after).flatMap chars = source := hsplit ▸ chars_lexFrom 0 source
  refine ⟨before.flatMap chars, after.flatMap chars, ?_, ?_⟩
  · simpa using hsource.symm
  · simp [span, stop, hstart]

/-- The tokens of any text divide it. Their spans are filled, begin at the first byte, lie end to end and
end with the text; each of them lies between characters, and what it holds is the text of the token. So
the texts of the tokens make up the text, no place is beyond its end, and the matcher gives these tokens
in this order, and then none. -/
theorem tokens_partition (source : List Char) :
    Span.Partition (byteLength source) 0 ((lex source).map span) ∧
    (∀ t ∈ lex source, ∃ before after, source = before ++ t.chars ++ after ∧
      t.span = ⟨byteLength before, byteLength (before ++ t.chars)⟩) ∧
    (lex source).flatMap chars = source ∧
    (∀ t ∈ lex source, t.stop ≤ byteLength source) ∧
    ∀ n, (Matcher.ofText source).token? n = (lex source)[n]? := by
  refine ⟨?_, fun t => stretch_of_mem_lex, chars_lexFrom 0 source, fun t => stop_le_of_mem_lex,
    Matcher.token?_eq _⟩
  simpa [lex] using partition_lexFrom 0 source

/-! ### Taking up a text behind a token -/

/-- A token as it is in a text with more bytes before it. -/
def shift (bytes : Nat) (t : Token) : Token :=
  { t with start := bytes + t.start }

/-- The tokens of a text do not depend on where it goes on. -/
theorem lexFrom_add (bytes start : Nat) (cs : List Char) :
    lexFrom (bytes + start) cs = (lexFrom start cs).map (shift bytes) := by
  fun_induction lexFrom start cs with
  | case1 => simp
  | case2 start c cs ih =>
      have hstop : (first (bytes + start) c cs).stop = bytes + (first start c cs).stop := by
        simp only [stop, first, Nat.add_assoc]
      rw [lexFrom_cons, hstop, ih, List.map_cons]
      rfl

/-- The tokens behind some first ones are those of the text behind them. -/
theorem lexFrom_split {start : Nat} {cs : List Char} {before after : List Token}
    (h : lexFrom start cs = before ++ after) :
    ∃ rest, cs = before.flatMap chars ++ rest ∧ after = lexFrom (start + bytes before) rest := by
  induction before generalizing start cs with
  | nil => exact ⟨cs, rfl, h.symm⟩
  | cons t before ih =>
      cases cs with
      | nil => simp at h
      | cons c cs =>
          rw [lexFrom_cons] at h
          obtain ⟨rfl, hrest⟩ := List.cons.inj h
          obtain ⟨rest, hcs, hafter⟩ := ih hrest
          refine ⟨rest, ?_, ?_⟩
          · rw [List.flatMap_cons, List.append_assoc, ← hcs, first_append_afterFirst]
          · rw [hafter, bytes_cons, ← Nat.add_assoc]
            rfl

/-- What is behind the first token is what is left of the text without the token. -/
theorem afterFirst_of_append {front rest : List Char} {start : Nat} {c : Char} {cs : List Char}
    (h : front ++ c :: cs = front ++ (first start c cs).chars ++ rest) : afterFirst c cs = rest := by
  rw [← first_append_afterFirst start, List.append_assoc] at h
  exact List.append_cancel_left (List.append_cancel_left h)

/-- Every token is the first one of the text from its place on. -/
theorem exists_first_of_split {start : Nat} {cs : List Char} {before after : List Token} {t : Token}
    (h : lexFrom start cs = before ++ t :: after) :
    ∃ n d ds, t = first n d ds ∧ cs = before.flatMap chars ++ d :: ds ∧
      after.flatMap chars = afterFirst d ds := by
  obtain ⟨rest, rfl, hrest⟩ := lexFrom_split h
  cases rest with
  | nil => simp at hrest
  | cons d ds =>
      rw [lexFrom_cons] at hrest
      obtain ⟨rfl, rfl⟩ := List.cons.inj hrest
      exact ⟨_, d, ds, rfl, rfl, chars_lexFrom _ _⟩

/-- Lexing can be taken up behind any of the tokens: those that follow are the tokens of what is left of
the text, moved on by the bytes before it, and a matcher of what is left gives them one by one as that of
the whole text does. -/
theorem lexing_resumes {source : List Char} {before after : List Token}
    (h : lex source = before ++ after) :
    ∃ rest, source = before.flatMap chars ++ rest ∧
      after = (lex rest).map (shift (bytes before)) ∧
      ∀ n, (Matcher.ofText source).token? (before.length + n) =
        ((Matcher.ofText rest).token? n).map (shift (bytes before)) := by
  obtain ⟨rest, hsource, hafter⟩ := lexFrom_split h
  have hrest : after = (lex rest).map (shift (bytes before)) := by
    rw [hafter, Nat.zero_add, ← Nat.add_zero (bytes before), lexFrom_add]
    rfl
  refine ⟨rest, hsource, hrest, fun n => ?_⟩
  rw [Matcher.token?_eq, Matcher.token?_eq, Matcher.remaining_ofText, Matcher.remaining_ofText, h,
    List.getElem?_append_right (Nat.le_add_right _ _), Nat.add_sub_cancel_left, hrest, List.getElem?_map]

/-- Between the numeral and the points of a range, where the matcher holds the points back. -/
theorem lexing_resumes_range :
    let numeral : Token := ⟨.intLiteral, ['1'], 0⟩
    let after : List Token := [⟨.dotDot, ['.', '.'], 1⟩, ⟨.realLiteral, ".5e3".toList, 3⟩]
    lex "1...5e3".toList = [numeral] ++ after ∧
      (Matcher.after 1 (Matcher.ofText "1...5e3".toList)).waiting = after.take 1 ∧
      ∃ rest, "1...5e3".toList = [numeral].flatMap chars ++ rest ∧
        after = (lex rest).map (shift (bytes [numeral])) ∧
        ∀ n, (Matcher.ofText "1...5e3".toList).token? ([numeral].length + n) =
          ((Matcher.ofText rest).token? n).map (shift (bytes [numeral])) := by
  intro numeral after
  have hlex : lex "1...5e3".toList = [numeral] ++ after := by decide +kernel
  exact ⟨hlex, by decide +kernel, lexing_resumes hlex⟩

end Token

end StructuredText
