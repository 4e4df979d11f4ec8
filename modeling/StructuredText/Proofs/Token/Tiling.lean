import StructuredText.Proofs.Token.Lexing

/-!
Tokens that lie end to end. The tokens of a text do, from its start on, and none of them is empty; so
a run of them takes as many bytes as its characters, and no two of them start at the same byte.
-/

namespace StructuredText.Token

/-- The first token starts at a byte, and each of the others where the one before it stops. -/
def Tiles : Nat → List Token → Prop
  | _, [] => True
  | start, t :: ts => t.start = start ∧ Tiles t.stop ts

/-- The number of bytes of a row of tokens. -/
def bytes (ts : List Token) : Nat :=
  byteLength (ts.flatMap Token.chars)

@[simp] theorem bytes_nil : bytes [] = 0 := rfl

@[simp] theorem bytes_cons (t : Token) (ts : List Token) :
    bytes (t :: ts) = byteLength t.chars + bytes ts := by
  simp [bytes]

@[simp] theorem bytes_append (ts us : List Token) : bytes (ts ++ us) = bytes ts + bytes us := by
  simp [bytes]

theorem tiles_append {start : Nat} {ts us : List Token} :
    Tiles start (ts ++ us) ↔ Tiles start ts ∧ Tiles (start + bytes ts) us := by
  induction ts generalizing start with
  | nil => simp [Tiles]
  | cons t ts ih =>
      simp only [List.cons_append, Tiles, ih, bytes_cons, and_assoc]
      refine and_congr_right fun hstart => ?_
      rw [stop, hstart, Nat.add_assoc]

/-- The last of some tokens that lie end to end stops where they all do. -/
theorem Tiles.stop_getLast? {start : Nat} {ts : List Token} (h : Tiles start ts) {t : Token}
    (ht : ts.getLast? = some t) : t.stop = start + bytes ts := by
  obtain ⟨us, rfl⟩ := List.getLast?_eq_some_iff.mp ht
  obtain ⟨-, hstart, -⟩ := tiles_append.mp h
  simp [stop, hstart, Nat.add_assoc]

theorem Tiles.le_start {start : Nat} {ts : List Token} (h : Tiles start ts) {t : Token}
    (ht : t ∈ ts) : start ≤ t.start := by
  induction ts generalizing start with
  | nil => cases ht
  | cons u ts ih =>
      obtain ⟨rfl, hts⟩ := h
      rcases List.mem_cons.mp ht with rfl | ht
      · exact Nat.le_refl _
      · have := ih hts ht
        simp only [stop] at this
        omega

theorem Tiles.stop_le {start : Nat} {ts : List Token} (h : Tiles start ts) {t : Token}
    (ht : t ∈ ts) : t.stop ≤ start + bytes ts := by
  obtain ⟨before, after, rfl⟩ := List.append_of_mem ht
  obtain ⟨-, hstart, -⟩ := tiles_append.mp h
  simp only [stop, hstart, bytes_append, bytes_cons]
  omega

/-- Of two tokens, the first stops before the second starts. -/
theorem Tiles.pairwise {start : Nat} {ts : List Token} (h : Tiles start ts) :
    ts.Pairwise fun t u => t.stop ≤ u.start := by
  induction ts generalizing start with
  | nil => exact List.Pairwise.nil
  | cons t ts ih => exact List.Pairwise.cons (fun u hu => h.2.le_start hu) (ih h.2)

/-! ### The tokens of a text -/

theorem tiles_lexFrom (start : Nat) (cs : List Char) : Tiles start (lexFrom start cs) := by
  fun_induction lexFrom start cs with
  | case1 => trivial
  | case2 start c cs ih => exact ⟨rfl, ih⟩

theorem bytes_lexFrom (start : Nat) (cs : List Char) :
    bytes (lexFrom start cs) = byteLength cs := by
  rw [bytes, chars_lexFrom]

theorem start_lt_stop_of_mem_lexFrom {start : Nat} {cs : List Char} {t : Token}
    (h : t ∈ lexFrom start cs) : t.start < t.stop := by
  fun_induction lexFrom start cs with
  | case1 => cases h
  | case2 start c cs ih =>
      rcases List.mem_cons.mp h with rfl | h
      · have hpos : 0 < c.utf8Size := c.utf8Size_pos
        simp only [stop, first, byteLength_cons]
        omega
      · exact ih h

theorem stop_le_of_mem_lex {source : List Char} {t : Token} (h : t ∈ lex source) :
    t.stop ≤ byteLength source := by
  simpa [bytes_lexFrom] using (tiles_lexFrom 0 source).stop_le h

/-- No two tokens of a text start at the same byte. -/
theorem eq_of_start_eq {source : List Char} {t u : Token} (ht : t ∈ lex source)
    (hu : u ∈ lex source) (h : t.start = u.start) : t = u := by
  have hpairs := (tiles_lexFrom 0 source).pairwise
  refine List.Pairwise.forall_of_forall_of_flip (R := fun t u => t.start = u.start → t = u)
    (fun _ _ _ => rfl) ?_ ?_ ht hu h
  · refine hpairs.imp_of_mem fun ha _ hle heq => ?_
    have := start_lt_stop_of_mem_lexFrom ha
    omega
  · refine hpairs.imp_of_mem fun ha _ hle heq => ?_
    have := start_lt_stop_of_mem_lexFrom ha
    omega

theorem nodup_lex (source : List Char) : (lex source).Nodup := by
  refine (tiles_lexFrom 0 source).pairwise.imp_of_mem fun ha _ hle => ?_
  rintro rfl
  exact Nat.lt_irrefl _ (Nat.lt_of_lt_of_le (start_lt_stop_of_mem_lexFrom ha) hle)

end StructuredText.Token
