import Mathlib.Data.List.Infix
import StructuredText.Text.Position
import StructuredText.Text.Span

/-!
Lines and columns as places in a text. From one place between two characters to the next, the column
goes up by one, or a new line starts; so positions are in the order of their places, and the place can be
found again from the position.
-/

namespace StructuredText

/-- An offset that is a place between two characters, the start or the end of the text. -/
def IsBoundary (source : List Char) (offset : Nat) : Prop :=
  ∃ front, front <+: source ∧ byteLength front = offset

namespace Position

/-- The order of positions: by line, and in one line by column. -/
def Before (p q : Position) : Prop :=
  p.line < q.line ∨ p.line = q.line ∧ p.column < q.column

theorem Before.trans {p q r : Position} (hpq : p.Before q) (hqr : q.Before r) : p.Before r := by
  unfold Before at *
  omega

theorem Before.asymm {p q : Position} (h : p.Before q) : ¬q.Before p := by
  unfold Before at *
  omega

/-- The position behind one more character. -/
def next (p : Position) (c : Char) : Position :=
  if c = '\n' then ⟨p.line + 1, 1⟩ else ⟨p.line, p.column + 1⟩

theorem before_next (p : Position) (c : Char) : p.Before (p.next c) := by
  unfold next Before
  split
  · exact .inl (Nat.lt_succ_self _)
  · exact .inr ⟨rfl, Nat.lt_succ_self _⟩

theorem after_nil : after [] = ⟨1, 1⟩ := rfl

theorem after_concat (cs : List Char) (c : Char) : after (cs ++ [c]) = (after cs).next c := by
  unfold next
  split
  next h => simp [after, h]
  next h => simp [after, h]

theorem before_after_append (cs : List Char) {ds : List Char} (h : ds ≠ []) :
    (after cs).Before (after (cs ++ ds)) := by
  induction ds using List.reverseRecOn with
  | nil => exact absurd rfl h
  | append_singleton ds d ih =>
      rw [← List.append_assoc, after_concat]
      rcases eq_or_ne ds [] with rfl | hds
      · rw [List.append_nil]
        exact before_next _ d
      · exact (ih hds).trans (before_next _ d)

/-! ### Offsets -/

theorem before?_append (front rest : List Char) :
    before? (byteLength front) (front ++ rest) = some front := by
  induction front with
  | nil => cases rest <;> rfl
  | cons c front ih =>
      have hpos := c.utf8Size_pos
      rw [byteLength_cons, List.cons_append, before?, if_neg (by omega), if_pos (by omega),
        Nat.add_sub_cancel_left, ih]
      rfl

theorem before?_of_le {source : List Char} {offset : Nat} (h : byteLength source ≤ offset) :
    before? offset source = some source := by
  induction source generalizing offset with
  | nil => rw [before?]
  | cons c source ih =>
      have hpos := c.utf8Size_pos
      rw [byteLength_cons] at h
      rw [before?, if_neg (by omega), if_pos (by omega), ih (by omega)]
      rfl

theorem ofOffset_append (front rest : List Char) :
    ofOffset (front ++ rest) (byteLength front) = after front := by
  rw [ofOffset, before?_append, Option.getD_some]

theorem ofOffset_of_le {source : List Char} {offset : Nat} (h : byteLength source ≤ offset) :
    ofOffset source offset = after source := by
  rw [ofOffset, before?_of_le h, Option.getD_some]

/-- An offset beyond the end has the position of the end. -/
theorem ofOffset_end {source : List Char} {offset : Nat} (h : byteLength source ≤ offset) :
    ofOffset source offset = ofOffset source (byteLength source) := by
  rw [ofOffset_of_le h, ofOffset_of_le (Nat.le_refl _)]

variable {source : List Char} {a b : Nat}

theorem before_of_lt (ha : IsBoundary source a) (hb : IsBoundary source b) (h : a < b) :
    (ofOffset source a).Before (ofOffset source b) := by
  obtain ⟨front, hfront, rfl⟩ := ha
  obtain ⟨longer, ⟨rest, rfl⟩, rfl⟩ := hb
  have hprefix : front <+: longer := by
    refine (List.prefix_or_prefix_of_prefix hfront (List.prefix_append _ _)).resolve_right ?_
    rintro ⟨ds, rfl⟩
    rw [byteLength_append] at h
    omega
  obtain ⟨ds, rfl⟩ := hprefix
  have hds : ds ≠ [] := by
    rintro rfl
    rw [List.append_nil] at h
    exact Nat.lt_irrefl _ h
  rw [ofOffset_append, List.append_assoc, ofOffset_append]
  exact before_after_append front hds

/-- The positions of places between characters are in the order of these places. -/
theorem lt_iff_before (ha : IsBoundary source a) (hb : IsBoundary source b) :
    a < b ↔ (ofOffset source a).Before (ofOffset source b) := by
  refine ⟨before_of_lt ha hb, fun h => ?_⟩
  by_contra hle
  rcases Nat.lt_or_eq_of_le (Nat.le_of_not_lt hle) with hlt | rfl
  · exact h.asymm (before_of_lt hb ha hlt)
  · exact h.asymm h

/-! ### The place of a position -/

/-- The text up to a number of line feeds, the last of them included. -/
def throughLines : Nat → List Char → List Char
  | 0, _ => []
  | _ + 1, [] => []
  | n + 1, c :: cs => c :: throughLines (if c = '\n' then n else n + 1) cs

/-- The offset of a position: behind the line feeds of the lines before its own, and then behind a
character for each column. -/
def offset (source : List Char) (p : Position) : Nat :=
  let lines := throughLines (p.line - 1) source
  byteLength lines + byteLength ((source.drop lines.length).take (p.column - 1))

theorem throughLines_append (front rest : List Char) :
    throughLines (front.count '\n' + 1) (front ++ '\n' :: rest) = front ++ ['\n'] := by
  induction front with
  | nil => simp [throughLines]
  | cons c front ih =>
      rw [List.cons_append, throughLines, List.count_cons]
      split
      next h => simp [h, ih]
      next h => simp [h, ih]

theorem throughLines_prefix (n : Nat) (cs : List Char) : throughLines n cs <+: cs := by
  induction cs generalizing n with
  | nil => cases n <;> exact List.nil_prefix
  | cons c cs ih =>
      cases n with
      | zero => exact List.nil_prefix
      | succ n => exact List.cons_prefix_cons.mpr ⟨rfl, ih _⟩

theorem column_pos (cs : List Char) : 0 < (after cs).column :=
  Nat.succ_pos _

/-- The lines before a place and its column make up the characters before it. -/
theorem length_throughLines (front rest : List Char) :
    (throughLines ((after front).line - 1) (front ++ rest)).length + ((after front).column - 1) =
      front.length := by
  induction front using List.reverseRecOn generalizing rest with
  | nil => simp [after_nil, throughLines]
  | append_singleton front c ih =>
      rw [after_concat, next, List.append_assoc, List.singleton_append, List.length_append]
      split
      next h =>
        subst h
        have hline : (after front).line + 1 - 1 = front.count '\n' + 1 := rfl
        rw [hline, throughLines_append, List.length_append]
        simp
      next h =>
        have hfront := ih (c :: rest)
        have hpos := column_pos front
        simp only [List.length_singleton]
        omega

/-- From the position of a place the place is found again. -/
theorem offset_ofOffset (h : IsBoundary source a) : (ofOffset source a).offset source = a := by
  obtain ⟨front, ⟨rest, rfl⟩, rfl⟩ := h
  rw [ofOffset_append]
  have hlength := length_throughLines front rest
  have hprefix := throughLines_prefix ((after front).line - 1) (front ++ rest)
  have htake : throughLines ((after front).line - 1) (front ++ rest) ++
      ((front ++ rest).drop (throughLines ((after front).line - 1) (front ++ rest)).length).take
        ((after front).column - 1) = front := by
    obtain ⟨others, hothers⟩ := hprefix
    generalize throughLines ((after front).line - 1) (front ++ rest) = lines at hlength hothers ⊢
    rw [← hothers, List.drop_left, ← List.take_length_add_append, hothers, hlength, List.take_left]
  rw [offset, ← byteLength_append, htake]

end Position

end StructuredText
