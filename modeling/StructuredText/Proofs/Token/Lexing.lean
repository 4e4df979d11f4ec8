import StructuredText.Proofs.Token.Pattern

/-!
The tokens of a text make it up: their characters are the text, each token starts where the one
before it stops, and no token stands for the end of input.
-/

namespace StructuredText.Token

theorem lexFrom_cons (start : Nat) (c : Char) (cs : List Char) :
    lexFrom start (c :: cs) =
      first start c cs :: lexFrom (first start c cs).stop (afterFirst c cs) := by
  rw [lexFrom]

@[simp] theorem lexFrom_nil (start : Nat) : lexFrom start [] = [] := by
  rw [lexFrom]

theorem chars_lexFrom (start : Nat) (cs : List Char) :
    (lexFrom start cs).flatMap Token.chars = cs := by
  fun_induction lexFrom start cs with
  | case1 => rfl
  | case2 start c cs ih =>
      rw [List.flatMap_cons, ih]
      exact first_append_afterFirst start c cs

theorem start_lexFrom {start : Nat} {cs : List Char} {before after : List Token} {t : Token}
    (h : lexFrom start cs = before ++ t :: after) :
    t.start = start + byteLength (before.flatMap Token.chars) := by
  induction before generalizing start cs with
  | nil =>
      cases cs with
      | nil => simp at h
      | cons c cs =>
          rw [lexFrom_cons] at h
          obtain ⟨rfl, -⟩ := List.cons.inj h
          simp [first]
  | cons u before ih =>
      cases cs with
      | nil => simp at h
      | cons c cs =>
          rw [lexFrom_cons] at h
          obtain ⟨rfl, htail⟩ := List.cons.inj h
          rw [ih htail, List.flatMap_cons, byteLength_append, ← Nat.add_assoc]
          rfl

theorem take_runLength (p : Char → Bool) (cs : List Char) :
    cs.take (runLength p cs) = cs.takeWhile p :=
  (List.prefix_iff_eq_take.mp (List.takeWhile_prefix p)).symm

theorem drop_runLength (p : Char → Bool) (cs : List Char) :
    cs.drop (runLength p cs) = cs.dropWhile p := by
  have hsplit : cs.take (runLength p cs) ++ cs.drop (runLength p cs) =
      cs.takeWhile p ++ cs.dropWhile p := by
    rw [List.take_append_drop, List.takeWhile_append_dropWhile]
  rw [take_runLength] at hsplit
  exact List.append_cancel_left hsplit

/-- A character of a class without blanks is no blank. -/
theorem isBlank_eq_false {p : Char → Bool} {c : Char} (hc : p c)
    (hp : [' ', '\t', '\r', '\n', '\x0c'].all (fun d => !p d)) : isBlank c = false := by
  rw [Bool.eq_false_iff]
  intro hblank
  simp only [isBlank, Bool.or_eq_true, decide_eq_true_eq] at hblank
  rcases hblank with (((rfl | rfl) | rfl) | rfl) | rfl <;> simp_all

/-! ### Kinds -/

variable {other : TokenKind}

/-- A word is a name, an error or a keyword. -/
theorem word_kind_ne (h : other ∉ .ident :: .error :: Keyword.spellings.map Prod.snd) (c : Char)
    (cs : List Char) : (word c cs).1 ≠ other := by
  rintro rfl
  refine h ?_
  unfold word
  split
  · rename_i spelling kind hlongest
    split
    · simp
    · have hmem : (spelling, kind) ∈ Keyword.spellings := List.mem_of_find?_eq_some hlongest
      exact List.mem_cons_of_mem _ (List.mem_cons_of_mem _ (List.mem_map_of_mem hmem))
  · split <;> simp

/-- What is munched as the end of input, as a `;` or as blank space: nothing, that character, and all
blank characters in front. -/
theorem munch_of_kind {kind : TokenKind} {c : Char} {cs : List Char}
    (hkind : kind = .eof ∨ kind = .semicolon ∨ kind = .whitespace) (h : (munch c cs).1 = kind) :
    kind = .semicolon ∧ c = ';' ∧ (munch c cs).2 = 0 ∨
      kind = .whitespace ∧ isBlank c ∧ (munch c cs).2 = runLength isBlank cs := by
  revert h
  rcases hkind with rfl | rfl | rfl
  all_goals
    unfold munch
    split
    · simp_all
    split
    · simp only
      split <;> simp
    split
    case h_3 => split <;> simp
    case h_5 | h_6 | h_7 | h_8 => exact fun h => absurd h (contest_kind_ne (by decide) _ _)
    case h_14 => split <;> simp
    case h_29 => exact fun h => absurd h (word_kind_ne (by decide) _ _)
    all_goals simp

/-- Every token of a text was munched. -/
theorem exists_first_of_mem_lexFrom {start : Nat} {cs : List Char} {t : Token}
    (h : t ∈ lexFrom start cs) : ∃ n c ds, t = first n c ds := by
  fun_induction lexFrom start cs with
  | case1 => cases h
  | case2 start c cs ih =>
      rcases List.mem_cons.mp h with rfl | h
      · exact ⟨start, c, cs, rfl⟩
      · exact ih h

theorem kind_ne_eof_of_mem_lexFrom {start : Nat} {cs : List Char} {t : Token}
    (h : t ∈ lexFrom start cs) : t.kind ≠ .eof := by
  obtain ⟨n, c, ds, rfl⟩ := exists_first_of_mem_lexFrom h
  intro hkind
  rcases munch_of_kind (.inl rfl) hkind with ⟨hother, -⟩ | ⟨hother, -⟩ <;> cases hother

theorem chars_of_semicolon {start : Nat} {cs : List Char} {t : Token} (h : t ∈ lexFrom start cs)
    (hkind : t.kind = .semicolon) : t.chars = [';'] := by
  obtain ⟨n, c, ds, rfl⟩ := exists_first_of_mem_lexFrom h
  rcases munch_of_kind (.inr (.inl rfl)) hkind with ⟨-, rfl, hlength⟩ | ⟨hother, -⟩
  · simp [first, hlength]
  · cases hother

theorem isBlank_of_whitespace {start : Nat} {cs : List Char} {t : Token} (h : t ∈ lexFrom start cs)
    (hkind : t.kind = .whitespace) : ∀ x ∈ t.chars, isBlank x := by
  obtain ⟨n, c, ds, rfl⟩ := exists_first_of_mem_lexFrom h
  rcases munch_of_kind (.inr (.inr rfl)) hkind with ⟨hother, -⟩ | ⟨-, hblank, hlength⟩
  · cases hother
  · simp only [first, hlength, take_runLength, List.forall_mem_cons]
    exact ⟨hblank, fun x hx => List.all_eq_true.mp List.all_takeWhile x hx⟩

end StructuredText.Token
