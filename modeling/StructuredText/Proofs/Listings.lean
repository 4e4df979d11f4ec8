import Mathlib.Data.List.Forall2
import StructuredText.Proofs.Lossless
import StructuredText.Proofs.Text.Quoting
import StructuredText.Report.Tree

/-!
Listings of a text. The tokens, the tree with its trivia and the document about it are printed line by
line, with each token in quotes on one line; so the text can be read back from them, and two texts
never look the same.
-/

namespace StructuredText

theorem toList_pushn (s : String) (c : Char) (n : Nat) :
    (s.pushn c n).toList = s.toList ++ List.replicate n c := by
  rw [String.pushn_eq_repeat_push]
  induction n with
  | zero => simp [Nat.repeat]
  | succ n ih => rw [Nat.repeat, String.toList_push, ih, List.append_assoc, List.replicate_succ']

/-! ### Lines -/

/-- The lines of an output, without the line feeds between them. -/
def lines (output : String) : List (List Char) :=
  output.toList.splitOn '\n'

theorem lines_unlines {rows : List String} (h : ∀ row ∈ rows, '\n' ∉ row.toList) :
    lines (unlines rows) = rows.map String.toList ++ [[]] := by
  unfold lines
  induction rows with
  | nil => rfl
  | cons row rows ih =>
    have hrow : (unlines (row :: rows)).toList = row.toList ++ '\n' :: (unlines rows).toList := by
      simp [unlines, String.join_cons]
    rw [hrow, List.splitOn_append_cons_self_of_not_mem (h row List.mem_cons_self),
      ih fun other hother => h other (List.mem_cons_of_mem _ hother), List.map_cons, List.cons_append]

/-- Characters that are neither quotes nor ends of lines. -/
def IsPlain (cs : List Char) : Prop :=
  ∀ c ∈ cs, c ≠ '"' ∧ ¬IsLineBreak c

instance : DecidablePred IsPlain :=
  fun cs => List.decidableBAll _ cs

theorem IsPlain.append {cs ds : List Char} (hcs : IsPlain cs) (hds : IsPlain ds) :
    IsPlain (cs ++ ds) :=
  fun c hc => (List.mem_append.mp hc).elim (hcs c) (hds c)

theorem IsPlain.replicate (n : Nat) : IsPlain (List.replicate n ' ') := by
  intro c hc
  rw [List.eq_of_mem_replicate hc]
  decide

theorem IsPlain.toDigits (n : Nat) : IsPlain (Nat.toDigits 10 n) := by
  intro c hc
  obtain ⟨d, hd, rfl⟩ := exists_digitChar_of_mem_toDigits (by decide) hc
  clear hc
  revert d
  decide

theorem TokenKind.isPlain_name (kind : TokenKind) : IsPlain kind.name.toList := by
  cases kind <;> decide

theorem NodeKind.isPlain_name (kind : NodeKind) : IsPlain kind.name.toList := by
  cases kind <;> decide

theorem ElementKind.isPlain_name : ∀ kind : ElementKind, IsPlain kind.name.toList
  | .token kind => kind.isPlain_name
  | .node kind => kind.isPlain_name

theorem Span.toList_render (s : Span) :
    s.render.toList = Nat.toDigits 10 s.start ++ ['.', '.'] ++ Nat.toDigits 10 s.stop := by
  have hstring (s : String) : toString s = s := rfl
  simp [render, hstring]

/-! ### Rows -/

namespace Row

/-- What a line says before it comes to the text. -/
def lead (r : Row) : List Char :=
  List.replicate (2 * r.depth) ' ' ++ r.kind.name.toList ++ ['@'] ++ r.span.render.toList

theorem isPlain_lead (r : Row) : IsPlain r.lead := by
  have hspan : IsPlain r.span.render.toList := by
    rw [Span.toList_render]
    exact ((IsPlain.toDigits _).append (by decide)).append (IsPlain.toDigits _)
  exact (((IsPlain.replicate _).append r.kind.isPlain_name).append (by decide)).append hspan

theorem toList_render (r : Row) :
    r.render.toList = r.lead ++ r.text.elim [] fun cs => ' ' :: Quoted.quote cs := by
  have hstring (s : String) : toString s = s := rfl
  cases htext : r.text <;> simp [render, lead, hstring, toList_pushn, htext]

/-- The text that a line shows: what stands between the first quote and the end. -/
def shownText? (line : List Char) : Option (List Char) :=
  match Quoted.unquote? (line.dropWhile (· ≠ '"')) with
  | some (cs, []) => some cs
  | _ => none

theorem shownText?_render (r : Row) : shownText? r.render.toList = r.text := by
  rw [shownText?, toList_render,
    List.dropWhile_append_of_pos fun c hc => by simpa using (r.isPlain_lead c hc).1]
  cases r.text with
  | none => rfl
  | some cs =>
    have hquote : (' ' :: Quoted.quote cs).dropWhile (· ≠ '"') = Quoted.quote cs := rfl
    have hread := Quoted.unquote?_quote cs []
    rw [List.append_nil] at hread
    simp only [Option.elim_some, hquote, hread]

theorem not_isLineBreak_of_mem_render {r : Row} {c : Char} (h : c ∈ r.render.toList) :
    ¬IsLineBreak c := by
  rw [toList_render, List.mem_append] at h
  rcases h with h | h
  · exact (r.isPlain_lead c h).2
  · cases htext : r.text with
    | none => simp [htext] at h
    | some cs =>
      rw [htext, Option.elim_some, List.mem_cons] at h
      rcases h with rfl | h
      · decide
      · exact Quoted.not_isLineBreak_of_mem_quote h

/-- The texts that the lines of a listing show, one after another. -/
def readBack (listing : String) : List Char :=
  ((lines listing).filterMap shownText?).flatten

/-- Each row is on one line, which shows the text of the row. -/
theorem shownText?_lines (rows : List Row) :
    (lines (unlines (rows.map render))).map shownText? = rows.map text ++ [none] := by
  rw [lines_unlines, List.map_append, List.map_map, List.map_map]
  · exact congrArg (· ++ [none]) (List.map_congr_left fun r _ => shownText?_render r)
  · intro row hrow hbreak
    obtain ⟨r, -, rfl⟩ := List.mem_map.mp hrow
    exact not_isLineBreak_of_mem_render hbreak (.inl rfl)

theorem return_notMem_unlines (rows : List Row) : '\r' ∉ (unlines (rows.map render)).toList := by
  intro h
  simp only [unlines, String.toList_join, List.map_map, List.mem_flatMap, List.mem_map,
    Function.comp_apply] at h
  obtain ⟨_, ⟨r, -, rfl⟩, h⟩ := h
  rw [String.toList_append, List.mem_append] at h
  rcases h with h | h
  · exact not_isLineBreak_of_mem_render h (.inr rfl)
  · revert h
    decide

theorem filterMap_text_ofForest (depth start : Nat) (f : Forest Token) :
    (ofForest depth start f).filterMap text = f.leaves.map Token.chars := by
  induction f generalizing depth start with
  | nil => rfl
  | leaf t rest ih =>
    exact congrArg (t.chars :: ·) (ih depth (start + byteLength t.chars))
  | node kind children rest ihc ih =>
    rw [ofForest, List.filterMap_cons_none rfl, List.filterMap_append, ihc, ih, Forest.leaves,
      List.map_append]

theorem shown_true (rows : List Row) : shown true rows = rows := by
  simp [shown]

end Row

/-! ### Documents -/

namespace Json

/-- The text that a line of a document gives to an element: the value of a field with that name. -/
def leafText? (line : List Char) : Option (List Char) := do
  let (name, rest) ← unquote? (line.dropWhile (· = ' '))
  if name = "text".toList ∧ [':', ' '] <+: rest then (unquote? (rest.drop 2)).map Prod.fst else none

/-- The texts that the lines of an output give. -/
def leafTexts (output : List Char) : List (List Char) :=
  (output.splitOn '\n').filterMap leafText?

/-- The texts that the lines of a document give, one after another. -/
def readBack (output : String) : List Char :=
  (leafTexts output.toList).flatten

theorem leafTexts_append (cs ds : List Char) :
    leafTexts (cs ++ '\n' :: ds) = leafTexts cs ++ leafTexts ds := by
  rw [leafTexts, List.splitOn_append_cons_self, List.filterMap_append]
  rfl

theorem leafTexts_line {line : List Char} (h : '\n' ∉ line) :
    leafTexts line = (leafText? line).toList := by
  rw [leafTexts, List.splitOn_eq_singleton h]
  cases hline : leafText? line <;> simp [hline]

theorem toList_newLine (depth : Nat) :
    (newLine depth).toList = '\n' :: List.replicate (2 * depth) ' ' := by
  rw [newLine, toList_pushn]
  rfl

/-- What may follow a value on its line. -/
def IsEnd (post : List Char) : Prop :=
  post = [] ∨ post = [',']

/-- What may precede a value on its line: either it is the text of an element, or it is not. -/
structure Opens (pre : List Char) (isText : Bool) : Prop where
  line : '\n' ∉ pre
  string : ∀ cs post, IsEnd post →
    leafText? (pre ++ (quote cs).toList ++ post) = if isText then some cs else none
  other : ∀ c rest, c ≠ '"' → c ≠ ' ' → leafText? (pre ++ c :: rest) = none

theorem dropWhile_blanks (k : Nat) {c : Char} (hc : c ≠ ' ') (rest : List Char) :
    (List.replicate k ' ' ++ c :: rest).dropWhile (· = ' ') = c :: rest := by
  rw [List.dropWhile_append_of_pos fun b hb => by simpa using List.eq_of_mem_replicate hb]
  exact List.dropWhile_cons_of_neg (by simpa using hc)

theorem unquote?_of_ne {c : Char} (hc : c ≠ '"') (rest : List Char) : unquote? (c :: rest) = none := by
  rw [unquote?]
  exact fun _ h => hc (List.cons.inj h).1

theorem toList_quote (cs : List Char) :
    (quote cs).toList = '"' :: (cs.flatMap escape ++ ['"']) := by
  simp [quote]

theorem leafText?_quote (k : Nat) (cs rest : List Char) :
    leafText? (List.replicate k ' ' ++ (quote cs).toList ++ rest) =
      if cs = "text".toList ∧ [':', ' '] <+: rest then (unquote? (rest.drop 2)).map Prod.fst
      else none := by
  have hread := unquote?_quote cs rest
  rw [toList_quote, List.cons_append] at hread
  rw [leafText?, toList_quote, List.append_assoc, List.cons_append, dropWhile_blanks k (by decide),
    hread]
  rfl

/-- Before an item of an array there are only blanks. -/
theorem Opens.blanks (k : Nat) : Opens (List.replicate k ' ') false where
  line h := absurd (List.eq_of_mem_replicate h) (by decide)
  string cs post hpost := by
    rw [leafText?_quote, if_neg]
    · rfl
    · rintro ⟨-, h⟩
      rcases hpost with rfl | rfl <;> exact absurd h (by decide)
  other c rest hquote hblank := by
    rw [leafText?, dropWhile_blanks k hblank, unquote?_of_ne hquote]
    rfl

/-- Before the value of a field there is its name. -/
theorem Opens.field (k : Nat) (name : String) :
    Opens (List.replicate k ' ' ++ (quote name.toList).toList ++ [':', ' ']) (name = "text") where
  line h := by
    rw [List.mem_append, List.mem_append] at h
    obtain (h | h) | h := h
    · exact (Opens.blanks k).line h
    · exact not_isLineBreak_of_mem_quote h (.inl rfl)
    · exact absurd h (by decide)
  string cs post hpost := by
    have hname : name.toList = ['t', 'e', 'x', 't'] ↔ name = "text" :=
      (String.toList_inj : name.toList = "text".toList ↔ name = "text")
    rw [List.append_assoc, List.append_assoc, leafText?_quote]
    simp [unquote?_quote, hname]
  other c rest hquote hblank := by
    rw [List.append_assoc, leafText?_quote]
    simp [unquote?_of_ne hquote]

/-- What the lines of an item say, indented as they are. -/
def Says (item : String) (ts : List (List Char)) : Prop :=
  ∀ k post, IsEnd post → leafTexts (List.replicate k ' ' ++ item.toList ++ post) = ts

theorem leafTexts_items (k : Nat) {items : List String} {said : List (List (List Char))}
    (h : List.Forall₂ Says items said) (hne : items ≠ []) :
    leafTexts (List.replicate k ' ' ++
      (("," ++ "\n".pushn ' ' k).intercalate items).toList) = said.flatten := by
  induction h with
  | nil => exact absurd rfl hne
  | @cons item ts items said hitem hitems ih =>
    cases items with
    | nil =>
      cases hitems
      simpa using hitem k [] (.inl rfl)
    | cons next items =>
      have hsplit : List.replicate k ' ' ++
          (("," ++ "\n".pushn ' ' k).intercalate (item :: next :: items)).toList =
          (List.replicate k ' ' ++ item.toList ++ [',']) ++ '\n' :: (List.replicate k ' ' ++
            (("," ++ "\n".pushn ' ' k).intercalate (next :: items)).toList) := by
        simp [String.intercalate_cons_cons, toList_pushn]
      rw [hsplit, leafTexts_append, hitem k [','] (.inr rfl), ih (by simp), List.flatten_cons]

/-- The characters between which items are put. -/
def brackets : List Char :=
  ['[', ']', '\x7b', '\x7d']

theorem ne_of_mem_brackets : ∀ c ∈ brackets, c ≠ '"' ∧ c ≠ ' ' ∧ '\n' ≠ c := by
  simp [brackets]

theorem Opens.leafTexts_other {pre rest : List Char} {isText : Bool} (h : Opens pre isText) {c : Char}
    (hquote : c ≠ '"') (hblank : c ≠ ' ') (hline : '\n' ∉ c :: rest) :
    leafTexts (pre ++ c :: rest) = [] := by
  rw [leafTexts_line, h.other c rest hquote hblank]
  · rfl
  · rw [List.mem_append]
    exact fun hbreak => hbreak.elim h.line hline

theorem Opens.leafTexts_bracket {pre rest : List Char} {isText : Bool} (h : Opens pre isText)
    {c : Char} (hc : c ∈ brackets) (hrest : '\n' ∉ rest) : leafTexts (pre ++ c :: rest) = [] := by
  obtain ⟨hquote, hblank, hbreak⟩ := ne_of_mem_brackets c hc
  exact h.leafTexts_other hquote hblank (List.not_mem_cons_of_ne_of_not_mem hbreak hrest)

theorem IsEnd.line {post : List Char} (h : IsEnd post) : '\n' ∉ post := by
  rcases h with rfl | rfl <;> decide

theorem leafTexts_enclosed {pre post : List Char} {isText : Bool} (hpre : Opens pre isText)
    (hpost : IsEnd post) {opening closing : Char} (hopening : opening ∈ brackets)
    (hclosing : closing ∈ brackets) (depth : Nat) {items : List String}
    {said : List (List (List Char))} (h : List.Forall₂ Says items said) :
    leafTexts (pre ++
      (enclosed (String.singleton opening) (String.singleton closing) depth items).toList ++ post) =
      said.flatten := by
  unfold enclosed
  cases h with
  | nil =>
    have hrest : '\n' ∉ closing :: post :=
      List.not_mem_cons_of_ne_of_not_mem (ne_of_mem_brackets closing hclosing).2.2 hpost.line
    simpa using hpre.leafTexts_bracket hopening hrest
  | @cons item ts items said hitem hitems =>
    have hsplit : pre ++ (String.singleton opening ++ newLine (depth + 1) ++
        ("," ++ newLine (depth + 1)).intercalate (item :: items) ++ newLine depth ++
          String.singleton closing).toList ++ post =
        (pre ++ [opening]) ++ '\n' :: ((List.replicate (2 * (depth + 1)) ' ' ++
          (("," ++ "\n".pushn ' ' (2 * (depth + 1))).intercalate (item :: items)).toList) ++
          '\n' :: (List.replicate (2 * depth) ' ' ++ closing :: post)) := by
      simp [newLine, toList_pushn]
    simp only [List.isEmpty_cons, Bool.false_eq_true, if_false]
    rw [hsplit, leafTexts_append, leafTexts_append, hpre.leafTexts_bracket hopening List.not_mem_nil,
      leafTexts_items _ (.cons hitem hitems) (List.cons_ne_nil _ _),
      (Opens.blanks _).leafTexts_bracket hclosing hpost.line, List.nil_append, List.append_nil]

/-- The value of a string. -/
def string? : Json → Option (List Char)
  | .string cs => some cs
  | _ => none

mutual

/-- All values of fields with the name `text` that are strings. -/
def texts : Json → List (List Char)
  | .number _ => []
  | .string _ => []
  | .array items => (textsOfItems items).flatten
  | .object fields => (textsOfFields fields).flatten

def textsOfItems : List Json → List (List (List Char))
  | [] => []
  | item :: items => item.texts :: textsOfItems items

def textsOfFields : List (String × Json) → List (List (List Char))
  | [] => []
  | (name, value) :: fields =>
    ((if name = "text" then value.string?.toList else []) ++ value.texts) :: textsOfFields fields

end

mutual

theorem leafTexts_pretty {pre post : List Char} {isText : Bool} (hpre : Opens pre isText)
    (hpost : IsEnd post) (depth : Nat) : ∀ j : Json,
    leafTexts (pre ++ (j.pretty depth).toList ++ post) =
      (if isText then j.string?.toList else []) ++ j.texts
  | .number n => by
    have hdigits : (pretty depth (.number n)).toList = Nat.toDigits 10 n := by
      simp [pretty]
    rw [hdigits, List.append_assoc]
    obtain ⟨c, cs, hcs⟩ := List.exists_cons_of_ne_nil (Nat.toDigits_ne_nil (b := 10) (n := n))
    have hline : '\n' ∉ Nat.toDigits 10 n ++ post := fun h => (List.mem_append.mp h).elim
      (fun h => (IsPlain.toDigits n _ h).2 (.inl rfl)) hpost.line
    have hmem : c ∈ Nat.toDigits 10 n := hcs ▸ List.mem_cons_self
    have hblank : c ≠ ' ' := by
      rintro rfl
      exact absurd (Nat.isDigit_of_mem_toDigits (by decide) (by decide) hmem) (by decide)
    have hquote := (IsPlain.toDigits n c hmem).1
    rw [hcs, List.cons_append] at hline ⊢
    simpa [texts, string?] using hpre.leafTexts_other hquote hblank hline
  | .string cs => by
    have hline : '\n' ∉ pre ++ (quote cs).toList ++ post := by
      rw [List.mem_append, List.mem_append]
      rintro ((h | h) | h)
      exacts [hpre.line h, not_isLineBreak_of_mem_quote h (.inl rfl), hpost.line h]
    rw [pretty, leafTexts_line hline, hpre.string cs post hpost]
    cases isText <;> simp [texts, string?]
  | .array items => by
    have hopening : '[' ∈ brackets := by decide
    have hclosing : ']' ∈ brackets := by decide
    have := leafTexts_enclosed hpre hpost hopening hclosing depth (says_prettyItems (depth + 1) items)
    simpa [pretty, texts, string?] using this
  | .object fields => by
    have hopening : '\x7b' ∈ brackets := by decide
    have hclosing : '\x7d' ∈ brackets := by decide
    have := leafTexts_enclosed hpre hpost hopening hclosing depth (says_prettyFields (depth + 1) fields)
    simpa [pretty, texts, string?] using this

theorem says_prettyItems (depth : Nat) : ∀ items : List Json,
    List.Forall₂ Says (prettyItems depth items) (textsOfItems items)
  | [] => .nil
  | item :: items => by
    rw [prettyItems, textsOfItems]
    refine .cons (fun k post hpost => ?_) (says_prettyItems depth items)
    simpa using leafTexts_pretty (Opens.blanks k) hpost depth item

theorem says_prettyFields (depth : Nat) : ∀ fields : List (String × Json),
    List.Forall₂ Says (prettyFields depth fields) (textsOfFields fields)
  | [] => .nil
  | (name, value) :: fields => by
    rw [prettyFields, textsOfFields]
    refine .cons (fun k post hpost => ?_) (says_prettyFields depth fields)
    simpa using leafTexts_pretty (Opens.field k name) hpost depth value

end

theorem leafTexts_render (j : Json) : leafTexts (j.render.toList ++ ['\n']) = j.texts := by
  rw [leafTexts_append, leafTexts_line List.not_mem_nil]
  simpa [render, leafText?, unquote?] using leafTexts_pretty (Opens.blanks 0) (.inl rfl) 0 j

theorem return_notMem_newLine (depth : Nat) : '\r' ∉ (newLine depth).toList := by
  rw [toList_newLine, List.mem_cons]
  rintro (h | h)
  · exact absurd h (by decide)
  · exact absurd (List.eq_of_mem_replicate h) (by decide)

theorem return_notMem_items {between : String} (hbetween : '\r' ∉ between.toList) {items : List String}
    (h : ∀ item ∈ items, '\r' ∉ item.toList) : '\r' ∉ (between.intercalate items).toList := by
  induction items with
  | nil => simp
  | cons item items ih =>
    have hitem := h item List.mem_cons_self
    have hitems := ih fun other hother => h other (List.mem_cons_of_mem _ hother)
    cases items with
    | nil => simpa using hitem
    | cons next items =>
      rw [String.intercalate_cons_cons, String.toList_append, String.toList_append]
      simp only [List.mem_append, not_or]
      exact ⟨⟨hitem, hbetween⟩, hitems⟩

theorem return_notMem_enclosed {opening closing : String} (hopening : '\r' ∉ opening.toList)
    (hclosing : '\r' ∉ closing.toList) (depth : Nat) {items : List String}
    (h : ∀ item ∈ items, '\r' ∉ item.toList) :
    '\r' ∉ (enclosed opening closing depth items).toList := by
  have hbetween : '\r' ∉ ("," ++ newLine (depth + 1)).toList := by
    simp only [String.toList_append, List.mem_append, not_or]
    exact ⟨by decide, return_notMem_newLine _⟩
  unfold enclosed
  split
  all_goals simp only [String.toList_append, List.mem_append, not_or]
  · exact ⟨hopening, hclosing⟩
  · exact ⟨⟨⟨⟨hopening, return_notMem_newLine _⟩, return_notMem_items hbetween h⟩,
      return_notMem_newLine _⟩, hclosing⟩

theorem return_notMem_quote (cs : List Char) : '\r' ∉ (quote cs).toList :=
  fun h => not_isLineBreak_of_mem_quote h (.inr rfl)

mutual

theorem return_notMem_pretty (depth : Nat) : ∀ j : Json, '\r' ∉ (j.pretty depth).toList
  | .number n => by
    have hdigits : (pretty depth (.number n)).toList = Nat.toDigits 10 n := by
      simp [pretty]
    exact fun h => (IsPlain.toDigits n _ (hdigits ▸ h)).2 (.inr rfl)
  | .string cs => by
    rw [pretty]
    exact return_notMem_quote cs
  | .array items => by
    rw [pretty]
    exact return_notMem_enclosed (by decide) (by decide) depth
      (return_notMem_prettyItems (depth + 1) items)
  | .object fields => by
    rw [pretty]
    exact return_notMem_enclosed (by decide) (by decide) depth
      (return_notMem_prettyFields (depth + 1) fields)

theorem return_notMem_prettyItems (depth : Nat) : ∀ items : List Json,
    ∀ item ∈ prettyItems depth items, '\r' ∉ item.toList
  | [] => by simp [prettyItems]
  | item :: items => by
    rw [prettyItems, List.forall_mem_cons]
    exact ⟨return_notMem_pretty depth item, return_notMem_prettyItems depth items⟩

theorem return_notMem_prettyFields (depth : Nat) : ∀ fields : List (String × Json),
    ∀ field ∈ prettyFields depth fields, '\r' ∉ field.toList
  | [] => by simp [prettyFields]
  | (name, value) :: fields => by
    rw [prettyFields, List.forall_mem_cons]
    refine ⟨?_, return_notMem_prettyFields depth fields⟩
    simp only [String.toList_append, List.mem_append, not_or]
    exact ⟨⟨return_notMem_quote _, by decide⟩, return_notMem_pretty depth value⟩

end

end Json

/-! ### Reading back -/

namespace Report

theorem texts_elementJson (kind : ElementKind) (span : Span) (text : Option (List Char))
    (children : List Json) :
    (elementJson kind span text children).texts =
      text.toList ++ (Json.textsOfItems children).flatten := by
  cases text <;> cases children <;>
    simp [elementJson, Json.texts, Json.textsOfFields, Json.textsOfItems, Json.string?]

/-- The texts in a document are those of the tokens. -/
theorem texts_forestJson (start : Nat) (f : Forest Token) :
    (Json.textsOfItems (forestJson true start f)).flatten = f.leaves.map Token.chars := by
  induction f generalizing start with
  | nil => rfl
  | leaf t rest ih =>
    simp [forestJson, Json.textsOfItems, texts_elementJson, Forest.leaves, ih]
  | node kind children rest ihc ih =>
    simp [forestJson, Json.textsOfItems, texts_elementJson, Forest.leaves, ihc, ih]

theorem texts_errors (input : Input) (ds : List Diagnostic) :
    (Json.textsOfItems (ds.map (errorJson input))).flatten = [] := by
  induction ds with
  | nil => rfl
  | cons d ds ih =>
    simpa [Json.textsOfItems, errorJson, Json.texts, Json.textsOfFields, Json.string?] using ih

theorem texts_document (input : Input) (p : Parse) :
    (document input p true).texts = p.children.leaves.map Token.chars := by
  simp [document, Json.texts, Json.textsOfFields, treeJson, texts_elementJson,
    texts_forestJson, texts_errors]

theorem filterMap_shownText? {listing : String} {rows : List Row}
    (h : (lines listing).map Row.shownText? = rows.map Row.text ++ [none]) :
    (lines listing).filterMap Row.shownText? = rows.filterMap Row.text := by
  have := congrArg (List.filterMap id) h
  simpa [List.filterMap_map] using this

theorem flatten_texts (text : List Char) : ((Token.lex text).map Token.chars).flatten = text :=
  Token.chars_lexFrom 0 text

/-- The rows of the tokens of a text. -/
def tokenRows (text : List Char) : List Row :=
  (Token.lex text).map (Row.ofToken 0)

theorem renderTokens_eq (text : List Char) :
    renderTokens text = unlines ((tokenRows text).map Row.render) := by
  rw [renderTokens, tokenRows, List.map_map]
  rfl

theorem map_text_tokenRows (text : List Char) :
    (tokenRows text).map Row.text = ((Token.lex text).map Token.chars).map some := by
  rw [tokenRows, List.map_map, List.map_map]
  rfl

theorem readBack_renderTokens (text : List Char) : Row.readBack (renderTokens text) = text := by
  have hrows : (tokenRows text).filterMap Row.text = (Token.lex text).map Token.chars := by
    have := congrArg (List.filterMap id) (map_text_tokenRows text)
    simpa [List.filterMap_map] using this
  rw [Row.readBack, renderTokens_eq, filterMap_shownText? (Row.shownText?_lines _), hrows,
    flatten_texts]

theorem renderTree_listing (input : Input) (p : Parse) :
    renderTree input p .tree true = unlines (p.rows.map Row.render) := by
  rw [renderTree, Parse.listing, Row.shown_true]

theorem filterMap_text_rows (text : List Char) :
    (Parse.ofText text).rows.filterMap Row.text = (Token.lex text).map Token.chars := by
  rw [Parse.rows, Row.filterMap_text_ofForest, Forest.leaves, Forest.leaves, List.append_nil,
    Parse.leaves_ofText]

theorem readBack_listing (input : Input) :
    Row.readBack (renderTree input (Parse.ofText input.text) .tree true) = input.text := by
  rw [Row.readBack, renderTree_listing, filterMap_shownText? (Row.shownText?_lines _),
    filterMap_text_rows, flatten_texts]

theorem toList_renderTree_json (input : Input) (p : Parse) :
    (renderTree input p .json true).toList = (document input p true).render.toList ++ ['\n'] := by
  rw [renderTree, String.toList_append]
  rfl

theorem leafTexts_document (input : Input) :
    Json.leafTexts (renderTree input (Parse.ofText input.text) .json true).toList =
      (Token.lex input.text).map Token.chars := by
  rw [toList_renderTree_json, Json.leafTexts_render, texts_document, Parse.leaves_ofText]

theorem readBack_document (input : Input) :
    Json.readBack (renderTree input (Parse.ofText input.text) .json true) = input.text := by
  rw [Json.readBack, leafTexts_document, flatten_texts]

theorem return_notMem_document (input : Input) (p : Parse) :
    '\r' ∉ (renderTree input p .json true).toList := by
  rw [toList_renderTree_json, List.mem_append, not_or]
  exact ⟨Json.return_notMem_pretty 0 _, by decide⟩

/-- The source can be read back from every full listing, line by line. In the listing of the tokens and in
that of the tree with its trivia, each row is on one line, which shows its text and nothing else in quotes;
in the document with its trivia, the lines that give a text give those of the tokens. No line break of a
text is left as it is. So the texts, one after another, are the source, and the listings of two texts
are different. -/
theorem listings_readable (input : Input) :
    let p := Parse.ofText input.text
    let texts := (Token.lex input.text).map Token.chars
    let tokens := renderTokens input.text
    let tree := renderTree input p .tree true
    let document := renderTree input p .json true
    (lines tokens).map Row.shownText? = texts.map some ++ [none] ∧
    (lines tree).map Row.shownText? = p.rows.map Row.text ++ [none] ∧
    p.rows.filterMap Row.text = texts ∧
    (lines document).filterMap Json.leafText? = texts ∧
    (∀ output ∈ [tokens, tree, document], '\r' ∉ output.toList) ∧
    Row.readBack tokens = input.text ∧ Row.readBack tree = input.text ∧
    Json.readBack document = input.text ∧
    ∀ other : Input, other.text ≠ input.text →
      renderTokens other.text ≠ tokens ∧
      renderTree other (Parse.ofText other.text) .tree true ≠ tree ∧
      renderTree other (Parse.ofText other.text) .json true ≠ document := by
  intro p texts tokens tree document
  refine ⟨?_, ?_, filterMap_text_rows input.text, leafTexts_document input, ?_,
    readBack_renderTokens input.text, readBack_listing input, readBack_document input, ?_⟩
  · have := Row.shownText?_lines (tokenRows input.text)
    rwa [← renderTokens_eq, map_text_tokenRows] at this
  · have := Row.shownText?_lines p.rows
    rwa [← renderTree_listing input] at this
  · simp only [List.forall_mem_cons, List.not_mem_nil, false_implies, implies_true, and_true]
    refine ⟨?_, ?_, return_notMem_document input p⟩
    · simpa only [tokens, renderTokens_eq] using Row.return_notMem_unlines _
    · simpa only [tree, renderTree_listing] using Row.return_notMem_unlines _
  · intro other hother
    refine ⟨fun h => hother ?_, fun h => hother ?_, fun h => hother ?_⟩
    · rw [← readBack_renderTokens other.text, h, readBack_renderTokens]
    · rw [← readBack_listing other, h, readBack_listing]
    · rw [← readBack_document other, h, readBack_document]

end Report

end StructuredText
