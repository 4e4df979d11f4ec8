import StructuredText.Proofs.Listings
import StructuredText.Proofs.Text.Decimal

/-!
Documents read as a whole. A reader that knows nothing of their layout gets back what was laid out: between
two parts it passes over blanks and ends of lines, and each part shows by its first character what it is.
-/

namespace StructuredText.Json

/-! ### Readers -/

/-- Takes something from the front of a text, and gives what follows it. -/
abbrev Reader (α : Type) :=
  List Char → Option (α × List Char)

/-- The characters that may stand between two parts. -/
def isBlank (c : Char) : Bool :=
  c = ' ' || c = '\t' || c = '\n' || c = '\r'

def skip (cs : List Char) : List Char :=
  cs.dropWhile isBlank

section

variable {α : Type}

/-- Items with commas between them, and the bracket behind them. There may be as many as the number says. -/
def readItems (item : Reader α) (closing : Char) : Nat → Reader (List α)
  | 0, _ => none
  | n + 1, cs => do
    let (a, rest) ← item (skip cs)
    match skip rest with
    | ',' :: rest =>
      let (as, rest) ← readItems item closing n rest
      return (a :: as, rest)
    | c :: rest => if c = closing then return ([a], rest) else none
    | [] => none

/-- What is between two brackets, of which the first one has been read. -/
def readList (item : Reader α) (closing : Char) (n : Nat) : Reader (List α) := fun cs =>
  match skip cs with
  | [] => none
  | c :: rest => if c = closing then some ([], rest) else readItems item closing n cs

/-- A field of an object: its name and its value. -/
def readField (value : Reader α) : Reader (String × α) := fun cs => do
  let (name, rest) ← unquote? cs
  match skip rest with
  | ':' :: rest =>
    let (a, rest) ← value (skip rest)
    return ((String.ofList name, a), rest)
  | _ => none

end

/-- A value. Neither the depth nor the number of items of one list may be greater than the number says. -/
def readValue : Nat → Reader Json
  | 0, _ => none
  | n + 1, '[' :: rest => (readList (readValue n) ']' n rest).map (Prod.map .array id)
  | n + 1, '\x7b' :: rest =>
    (readList (readField (readValue n)) '\x7d' n rest).map (Prod.map .object id)
  | _ + 1, '"' :: rest => (read rest).map (Prod.map .string id)
  | _ + 1, cs => (Decimal.read? cs).map (Prod.map .number id)

/-- The document that a text is. -/
def ofText? (cs : List Char) : Option Json := do
  let (j, rest) ← readValue (cs.length + 1) (skip cs)
  if skip rest = [] then some j else none

/-! ### Layout -/

theorem skip_of_blank {blanks : List Char} (h : ∀ c ∈ blanks, isBlank c) (cs : List Char) :
    skip (blanks ++ cs) = skip cs :=
  List.dropWhile_append_of_pos h

theorem skip_cons {c : Char} (hc : isBlank c = false) (cs : List Char) : skip (c :: cs) = c :: cs :=
  List.dropWhile_cons_of_neg (by simp [hc])

theorem isBlank_of_mem_newLine (depth : Nat) : ∀ c ∈ (newLine depth).toList, isBlank c := by
  intro c hc
  rw [toList_newLine, List.mem_cons] at hc
  rcases hc with rfl | hc
  · rfl
  · rw [List.eq_of_mem_replicate hc]
    rfl

theorem ends_newLine (depth : Nat) (cs : List Char) : Decimal.Ends ((newLine depth).toList ++ cs) := by
  rw [toList_newLine]
  exact Decimal.Ends.cons rfl _

/-- The characters by which nothing starts that is in a list. -/
def isBetween (c : Char) : Bool :=
  isBlank c || c = ']' || c = '\x7d'

theorem isBlank_of_not_isBetween {c : Char} (h : isBetween c = false) : isBlank c = false := by
  simp_all [isBetween]

/-- A reader finds something in a text, whatever follows it, as long as this is no digit. The text starts
in such a way that it is not taken for something else. -/
structure Reads {α : Type} (reader : Reader α) (a : α) (text : String) : Prop where
  head : ∃ c cs, text.toList = c :: cs ∧ isBetween c = false
  read : ∀ rest, Decimal.Ends rest → reader (text.toList ++ rest) = some (a, rest)

section

variable {α : Type} {item : Reader α} {items : List α} {texts : List String}

theorem Reads.skip {a : α} {text : String} (h : Reads item a text) (rest : List Char) :
    skip (text.toList ++ rest) = text.toList ++ rest := by
  obtain ⟨c, cs, htext, hc⟩ := h.head
  rw [htext, List.cons_append, skip_cons (isBlank_of_not_isBetween hc)]

theorem readItems_intercalate {closing : Char} (hcomma : closing ≠ ',') (hblank : isBlank closing = false)
    (depth : Nat) {n : Nat} (h : List.Forall₂ (Reads item) items texts) (hne : texts ≠ [])
    (hn : texts.length ≤ n) (rest : List Char) :
    readItems item closing n ((newLine (depth + 1)).toList ++
      (("," ++ newLine (depth + 1)).intercalate texts).toList ++
        ((newLine depth).toList ++ closing :: rest)) = some (items, rest) := by
  induction h generalizing n with
  | nil => exact absurd rfl hne
  | @cons a text items texts ha hitems ih =>
      obtain ⟨n, rfl⟩ : ∃ k, n = k + 1 := Nat.exists_eq_add_one.mpr (by simp at hn; omega)
      rw [List.append_assoc, readItems, skip_of_blank (isBlank_of_mem_newLine _)]
      cases texts with
      | nil =>
          cases hitems
          rw [String.intercalate_singleton, ha.skip]
          simp [ha.read _ (ends_newLine _ _), skip_of_blank (isBlank_of_mem_newLine _),
            skip_cons hblank]
      | cons next texts =>
          have hends (cs : List Char) : Decimal.Ends (',' :: cs) := .cons rfl cs
          have hcommas (cs : List Char) : skip (',' :: cs) = ',' :: cs := skip_cons rfl cs
          have hrest := ih (List.cons_ne_nil _ _) (by simpa using hn)
          rw [String.intercalate_cons_cons]
          simp only [String.toList_append, List.append_assoc, ha.skip, String.reduceToList,
            List.cons_append, List.nil_append] at hrest ⊢
          simp only [ha.read _ (hends _), hcommas, hrest, Option.bind_eq_bind, Option.bind_some]
          rfl

theorem skip_intercalate {a : α} {text : String} (h : Reads item a text) (separator : String)
    (texts : List String) (rest : List Char) :
    ∃ c cs, skip ((separator.intercalate (text :: texts)).toList ++ rest) = c :: cs ∧
      isBetween c = false := by
  obtain ⟨c, cs, htext, hc⟩ := h.head
  have hblank := isBlank_of_not_isBetween hc
  cases texts with
  | nil => exact ⟨c, cs ++ rest, by simp [htext, skip_cons hblank], hc⟩
  | cons next texts =>
      rw [String.intercalate_cons_cons, String.toList_append, String.toList_append, htext]
      exact ⟨c, _, skip_cons hblank _, hc⟩

/-- What is laid out between two brackets is read up to the second one. -/
theorem readList_enclosed {opening closing : String} {o c : Char} (ho : opening.toList = [o])
    (hc : closing.toList = [c]) (hbracket : c = ']' ∨ c = '\x7d') (depth : Nat) {n : Nat}
    (h : List.Forall₂ (Reads item) items texts) (hn : texts.length ≤ n) (rest : List Char) :
    ∃ inner, (enclosed opening closing depth texts).toList ++ rest = o :: inner ∧
      readList item c n inner = some (items, rest) := by
  have hblank : isBlank c = false := by rcases hbracket with rfl | rfl <;> rfl
  have hcomma : c ≠ ',' := by rcases hbracket with rfl | rfl <;> simp
  unfold enclosed
  cases h with
  | nil =>
      refine ⟨c :: rest, by simp [ho, hc], ?_⟩
      simp [readList, skip_cons hblank]
  | @cons a text items texts ha hitems =>
      have hread := readItems_intercalate hcomma hblank depth (.cons ha hitems) (List.cons_ne_nil _ _)
        hn rest
      refine ⟨(newLine (depth + 1)).toList ++
        (("," ++ newLine (depth + 1)).intercalate (text :: texts)).toList ++
          ((newLine depth).toList ++ c :: rest), by simp [ho, hc], ?_⟩
      -- The first item does not start with the second bracket.
      obtain ⟨d, ds, hskip, hd⟩ := skip_intercalate ha ("," ++ newLine (depth + 1)) texts
        ((newLine depth).toList ++ c :: rest)
      have hdc : d ≠ c := by
        rintro rfl
        rcases hbracket with rfl | rfl <;> cases hd
      rw [readList, List.append_assoc, skip_of_blank (isBlank_of_mem_newLine _), hskip]
      rw [List.append_assoc] at hread
      exact (if_neg hdc).trans hread

/-! ### Sizes -/

theorem length_le_intercalate (separator : String) (texts : List String) :
    ∀ text ∈ texts, text.toList.length ≤ (separator.intercalate texts).toList.length := by
  induction texts with
  | nil => exact nofun
  | cons text texts ih =>
      intro other hother
      cases texts with
      | nil =>
          obtain rfl : other = text := by simpa using hother
          simp
      | cons next texts =>
          rw [String.intercalate_cons_cons, String.toList_append, String.toList_append]
          simp only [List.length_append]
          rcases List.mem_cons.mp hother with rfl | hother
          · omega
          · have := ih other hother
            omega

theorem count_le_intercalate (separator : String) (hseparator : 0 < separator.toList.length)
    (texts : List String) : texts.length ≤ (separator.intercalate texts).toList.length + 1 := by
  induction texts with
  | nil => simp
  | cons text texts ih =>
      cases texts with
      | nil => simp
      | cons next texts =>
          rw [String.intercalate_cons_cons, String.toList_append, String.toList_append]
          simp only [List.length_append, List.length_cons] at ih ⊢
          omega

/-- Between two brackets there is room for all items. -/
theorem enclosed_bounds {opening : String} (hopening : 0 < opening.toList.length) (closing : String)
    (depth : Nat) (texts : List String) :
    texts.length ≤ (enclosed opening closing depth texts).toList.length ∧
    ∀ text ∈ texts, text.toList.length < (enclosed opening closing depth texts).toList.length := by
  unfold enclosed
  cases texts with
  | nil => simp
  | cons text texts =>
      have hseparator : 0 < ("," ++ newLine (depth + 1)).toList.length := by simp
      have hcount := count_le_intercalate _ hseparator (text :: texts)
      have hlength := length_le_intercalate ("," ++ newLine (depth + 1)) (text :: texts)
      simp only [List.isEmpty_cons, Bool.false_eq_true, if_false, String.toList_append, List.length_append]
      constructor
      · omega
      · intro other hother
        have := hlength other hother
        omega

end

/-! ### Reading what was laid out -/

theorem Reads.number (n k : Nat) : Reads (readValue (k + 1)) (.number n) (toString n) := by
  obtain ⟨c, cs, hcs⟩ := List.exists_cons_of_ne_nil (Nat.toDigits_ne_nil (b := 10) (n := n))
  have hdigit : c.isDigit :=
    Nat.isDigit_of_mem_toDigits (by omega) (by omega) (hcs ▸ List.mem_cons_self : c ∈ Nat.toDigits 10 n)
  have hne (d : Char) (hd : d.isDigit = false) : c ≠ d := by
    rintro rfl
    simp [hd] at hdigit
  have hbetween : isBetween c = false := by
    simp [isBetween, isBlank, hne ' ' rfl, hne '\t' rfl, hne '\n' rfl, hne '\r' rfl, hne ']' rfl,
      hne '\x7d' rfl]
  have htext : (toString n).toList = c :: cs := (Decimal.toList_toString n).trans hcs
  refine ⟨⟨c, cs, htext, hbetween⟩, fun rest hrest => ?_⟩
  have hread := Decimal.read?_toDigits n hrest
  rw [hcs, List.cons_append] at hread
  rw [htext, List.cons_append, readValue, hread]
  · rfl
  · exact fun _ h => hne '[' rfl (List.cons.inj h).1
  · exact fun _ h => hne '\x7b' rfl (List.cons.inj h).1
  · exact fun _ h => hne '"' rfl (List.cons.inj h).1

theorem Reads.string (cs : List Char) (k : Nat) : Reads (readValue (k + 1)) (.string cs) (quote cs) := by
  refine ⟨⟨_, _, toList_quote cs, rfl⟩, fun rest _ => ?_⟩
  have hread := unquote?_quote cs rest
  rw [toList_quote, List.cons_append, unquote?] at hread
  rw [toList_quote, List.cons_append, readValue, hread]
  rfl

theorem Reads.field {α : Type} {value : Reader α} {a : α} {text : String} (h : Reads value a text)
    (name : String) : Reads (readField value) (name, a) (quote name.toList ++ ": " ++ text) := by
  constructor
  · refine ⟨'"', (name.toList.flatMap escape ++ ['"']) ++ (": ".toList ++ text.toList), ?_, rfl⟩
    simp [toList_quote]
  · intro rest hrest
    have hcolon : Json.skip (": ".toList ++ (text.toList ++ rest)) = ':' :: ' ' :: (text.toList ++ rest) :=
      skip_cons rfl _
    have hblank : Json.skip (' ' :: (text.toList ++ rest)) = text.toList ++ rest := h.skip rest
    rw [String.toList_append, String.toList_append, List.append_assoc, List.append_assoc, readField,
      unquote?_quote]
    simp only [Option.bind_eq_bind, Option.bind_some, hcolon, hblank, h.read rest hrest,
      String.ofList_toList]
    rfl

theorem Reads.array {n : Nat} {items : List Json} {texts : List String} {depth : Nat}
    (h : List.Forall₂ (Reads (readValue n)) items texts) (hn : texts.length ≤ n) :
    Reads (readValue (n + 1)) (.array items) (enclosed "[" "]" depth texts) := by
  have hopening : "[".toList = ['['] := rfl
  have hclosing : "]".toList = [']'] := rfl
  have henclosed := readList_enclosed hopening hclosing (.inl rfl) depth h hn
  constructor
  · obtain ⟨inner, hinner, -⟩ := henclosed []
    rw [List.append_nil] at hinner
    exact ⟨'[', inner, hinner, rfl⟩
  · intro rest _
    obtain ⟨inner, hinner, hread⟩ := henclosed rest
    rw [hinner, readValue, hread]
    rfl

theorem Reads.object {n : Nat} {fields : List (String × Json)} {texts : List String} {depth : Nat}
    (h : List.Forall₂ (Reads (readField (readValue n))) fields texts) (hn : texts.length ≤ n) :
    Reads (readValue (n + 1)) (.object fields) (enclosed "\x7b" "\x7d" depth texts) := by
  have hopening : "\x7b".toList = ['\x7b'] := rfl
  have hclosing : "\x7d".toList = ['\x7d'] := rfl
  have henclosed := readList_enclosed hopening hclosing (.inr rfl) depth h hn
  constructor
  · obtain ⟨inner, hinner, -⟩ := henclosed []
    rw [List.append_nil] at hinner
    exact ⟨'\x7b', inner, hinner, rfl⟩
  · intro rest _
    obtain ⟨inner, hinner, hread⟩ := henclosed rest
    rw [hinner, readValue, hread]
    rfl

mutual

theorem reads_pretty (depth : Nat) : ∀ (j : Json) {n : Nat}, (j.pretty depth).toList.length < n →
    Reads (readValue n) j (j.pretty depth)
  | _, 0, hn => absurd hn (Nat.not_lt_zero _)
  | .number m, n + 1, _ => .number m n
  | .string cs, n + 1, _ => .string cs n
  | .array items, n + 1, hn => by
    rw [pretty] at hn ⊢
    have hopening : 0 < "[".toList.length := by simp
    obtain ⟨hcount, hlength⟩ := enclosed_bounds hopening "]" depth (prettyItems (depth + 1) items)
    refine .array (reads_prettyItems (depth + 1) items fun text htext => ?_) (by omega)
    have := hlength text htext
    omega
  | .object fields, n + 1, hn => by
    rw [pretty] at hn ⊢
    have hopening : 0 < "\x7b".toList.length := by simp
    obtain ⟨hcount, hlength⟩ := enclosed_bounds hopening "\x7d" depth (prettyFields (depth + 1) fields)
    refine .object (reads_prettyFields (depth + 1) fields fun text htext => ?_) (by omega)
    have := hlength text htext
    omega

theorem reads_prettyItems (depth : Nat) : ∀ (items : List Json) {n : Nat},
    (∀ text ∈ prettyItems depth items, text.toList.length < n) →
    List.Forall₂ (Reads (readValue n)) items (prettyItems depth items)
  | [], _, _ => .nil
  | item :: items, n, hn => by
    obtain ⟨hitem, hitems⟩ := List.forall_mem_cons.mp hn
    exact .cons (reads_pretty depth item hitem) (reads_prettyItems depth items hitems)

theorem reads_prettyFields (depth : Nat) : ∀ (fields : List (String × Json)) {n : Nat},
    (∀ text ∈ prettyFields depth fields, text.toList.length < n) →
    List.Forall₂ (Reads (readField (readValue n))) fields (prettyFields depth fields)
  | [], _, _ => .nil
  | (name, value) :: fields, n, hn => by
    obtain ⟨hfield, hfields⟩ := List.forall_mem_cons.mp hn
    have hvalue : (value.pretty depth).toList.length < n := by
      rw [String.toList_append, List.length_append] at hfield
      omega
    exact .cons ((reads_pretty depth value hvalue).field name) (reads_prettyFields depth fields hfields)

end

/-- A document is read as it was. -/
theorem ofText?_render (j : Json) : ofText? (j.render ++ "\n").toList = some j := by
  have hreads : Reads (readValue ((j.render ++ "\n").toList.length + 1)) j j.render := by
    apply reads_pretty
    rw [String.toList_append, List.length_append, render]
    omega
  have hend : Decimal.Ends "\n".toList := Decimal.Ends.cons rfl []
  have hskip : Json.skip "\n".toList = [] := rfl
  rw [ofText?, String.toList_append, hreads.skip]
  rw [String.toList_append] at hreads
  rw [hreads.read _ hend]
  change (if skip "\n".toList = [] then some j else none) = some j
  exact if_pos hskip

end StructuredText.Json
