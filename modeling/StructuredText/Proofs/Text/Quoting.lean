import StructuredText.Json.Value
import StructuredText.Text.Quoted
import StructuredText.Token.Value

/-!
Quoted texts can be read back. In both forms of quoting, each character is written in such a way that a
reader who goes up to the next bare quote finds it again, whatever follows; and no line break is left as
it is.
-/

namespace StructuredText

/-! ### Numerals -/

theorem exists_digitChar_of_mem_toDigits {base n : Nat} {c : Char} (hbase : 1 < base)
    (h : c ∈ Nat.toDigits base n) : ∃ d < base, Nat.digitChar d = c := by
  induction n using Nat.strongRecOn with
  | ind n ih =>
    rw [Nat.toDigits_eq_if hbase] at h
    split at h
    next hn => exact ⟨n, hn, (List.mem_singleton.mp h).symm⟩
    next hn =>
      rcases List.mem_append.mp h with h | h
      · exact ih (n / base) (Nat.div_lt_self (by omega) hbase) h
      · exact ⟨n % base, Nat.mod_lt n (by omega), (List.mem_singleton.mp h).symm⟩

theorem Integer.digit_digitChar : ∀ d < 16, Integer.digit (Nat.digitChar d) = d := by
  decide

/-- A numeral stands for the number that it was made of. -/
theorem Integer.foldl_toDigits (n : Nat) :
    (Nat.toDigits 16 n).foldl (fun n c => 16 * n + Integer.digit c) 0 = n := by
  induction n using Nat.strongRecOn with
  | ind n ih =>
    rw [Nat.toDigits_eq_if (by decide)]
    split
    next hn => simp [Integer.digit_digitChar n hn]
    next hn =>
      rw [List.foldl_append, ih (n / 16) (Nat.div_lt_self (by omega) (by decide))]
      simp [Integer.digit_digitChar (n % 16) (Nat.mod_lt n (by decide)), Nat.div_add_mod]

/-- The characters that end a line. -/
def IsLineBreak (c : Char) : Prop :=
  c = '\n' ∨ c = '\r'

instance : DecidablePred IsLineBreak :=
  fun c => inferInstanceAs (Decidable (c = '\n' ∨ c = '\r'))

theorem not_isLineBreak_digitChar : ∀ d < 16, ¬IsLineBreak (Nat.digitChar d) := by
  decide

/-- A character in front of what was read. -/
def andThen (c : Char) (read : Option (List Char × List Char)) : Option (List Char × List Char) :=
  read.map fun (cs, rest) => (c :: cs, rest)

@[simp] theorem andThen_some (c : Char) (cs rest : List Char) :
    andThen c (some (cs, rest)) = some (c :: cs, rest) := rfl

section Escapes

variable {escape : Char → List Char}

/-- A reader that goes past the escape of any character goes past a quoted text. -/
theorem read_quoted {read : List Char → Option (List Char × List Char)}
    (hescape : ∀ c rest, read (escape c ++ rest) = andThen c (read rest))
    (hquote : ∀ rest, read ('"' :: rest) = some ([], rest)) (cs rest : List Char) :
    read (cs.flatMap escape ++ '"' :: rest) = some (cs, rest) := by
  induction cs with
  | nil => exact hquote rest
  | cons c cs ih => rw [List.flatMap_cons, List.append_assoc, hescape, ih, andThen_some]

theorem not_isLineBreak_quoted (hescape : ∀ c, ∀ b ∈ escape c, ¬IsLineBreak b) (cs : List Char) :
    ∀ b ∈ '"' :: cs.flatMap escape ++ ['"'], ¬IsLineBreak b := by
  have hquote : ¬IsLineBreak '"' := by decide
  simp only [List.cons_append, List.forall_mem_cons, List.forall_mem_append, List.not_mem_nil,
    false_implies, implies_true, and_true]
  refine ⟨hquote, fun b hb => ?_, hquote⟩
  obtain ⟨c, -, hb⟩ := List.mem_flatMap.mp hb
  exact hescape c b hb

end Escapes

/-! ### The quotes of listings -/

namespace Quoted

/-- The characters that a letter behind a backslash stands for. -/
def escaped? : Char → Option Char
  | '0' => some '\x00'
  | 't' => some '\t'
  | 'r' => some '\r'
  | 'n' => some '\n'
  | '"' => some '"'
  | '\\' => some '\\'
  | _ => none

/-- Reads up to the quote that is not escaped, and gives what was read and what is behind the quote.
Within the escape of a code point, the number read so far is at hand. -/
def read : Option Nat → List Char → Option (List Char × List Char)
  | some n, '\x7d' :: rest => andThen (Char.ofNat n) (read none rest)
  | some n, c :: rest => read (some (16 * n + Integer.digit c)) rest
  | none, '"' :: rest => some ([], rest)
  | none, '\\' :: 'u' :: '\x7b' :: rest => read (some 0) rest
  | none, '\\' :: c :: rest => (escaped? c).bind fun c => andThen c (read none rest)
  | none, c :: rest => andThen c (read none rest)
  | _, [] => none

/-- The text in quotes at the front, and what follows it. -/
def unquote? : List Char → Option (List Char × List Char)
  | '"' :: rest => read none rest
  | _ => none

theorem read_digits (n : Nat) (digits rest : List Char) (h : '\x7d' ∉ digits) :
    read (some n) (digits ++ '\x7d' :: rest) =
      andThen (Char.ofNat (digits.foldl (fun n c => 16 * n + Integer.digit c) n)) (read none rest) := by
  induction digits generalizing n with
  | nil => rfl
  | cons c digits ih =>
    rw [List.mem_cons, not_or] at h
    rw [List.cons_append, read, ih _ h.2, List.foldl_cons]
    exact fun hc => h.1 hc.symm

theorem digitChar_ne_brace : ∀ d < 16, Nat.digitChar d ≠ '\x7d' := by
  decide

theorem read_codePoint (c : Char) (rest : List Char) :
    read none (codePoint c ++ rest) = andThen c (read none rest) := by
  have hbrace : '\x7d' ∉ Nat.toDigits 16 c.toNat := by
    intro h
    obtain ⟨d, hd, heq⟩ := exists_digitChar_of_mem_toDigits (by decide) h
    exact digitChar_ne_brace d hd heq
  have := read_digits 0 (Nat.toDigits 16 c.toNat) rest hbrace
  rw [Integer.foldl_toDigits, Char.ofNat_toNat] at this
  simpa [codePoint, read] using this

theorem read_plain {c : Char} (hquote : c ≠ '"') (hbackslash : c ≠ '\\') (rest : List Char) :
    read none (c :: rest) = andThen c (read none rest) := by
  rw [read] <;> simp_all

theorem read_escape (c : Char) (rest : List Char) :
    read none (escape c ++ rest) = andThen c (read none rest) := by
  unfold escape
  split
  case h_7 =>
    split
    · exact read_codePoint c rest
    · exact read_plain (by assumption) (by assumption) rest
  all_goals rfl

theorem unquote?_quote (cs rest : List Char) : unquote? (quote cs ++ rest) = some (cs, rest) := by
  simpa [quote, unquote?] using read_quoted read_escape (fun _ => rfl) cs rest

theorem not_isLineBreak_of_mem_codePoint {b c : Char} (h : b ∈ codePoint c) : ¬IsLineBreak b := by
  simp only [codePoint, List.mem_append, List.mem_cons, List.not_mem_nil, or_false] at h
  rcases h with ((rfl | rfl | rfl) | h) | rfl
  case inl.inr =>
    obtain ⟨d, hd, rfl⟩ := exists_digitChar_of_mem_toDigits (by decide) h
    exact not_isLineBreak_digitChar d hd
  all_goals decide

theorem not_isLineBreak_of_mem_escape {b c : Char} (h : b ∈ escape c) : ¬IsLineBreak b := by
  unfold escape at h
  split at h
  case h_7 =>
    split at h
    · exact not_isLineBreak_of_mem_codePoint h
    · rw [List.mem_singleton.mp h]
      rintro (rfl | rfl) <;> contradiction
  all_goals
    simp only [List.mem_cons, List.not_mem_nil, or_false] at h
    rcases h with rfl | rfl <;> decide

theorem not_isLineBreak_of_mem_quote {b : Char} {cs : List Char} (h : b ∈ quote cs) :
    ¬IsLineBreak b :=
  not_isLineBreak_quoted (fun _ _ => not_isLineBreak_of_mem_escape) cs b h

end Quoted

/-! ### The strings of documents -/

namespace Json

/-- The characters that a letter behind a backslash stands for. -/
def escaped? : Char → Option Char
  | '"' => some '"'
  | '\\' => some '\\'
  | '/' => some '/'
  | 'b' => some '\x08'
  | 'f' => some '\x0c'
  | 'n' => some '\n'
  | 'r' => some '\r'
  | 't' => some '\t'
  | _ => none

/-- Reads up to the quote that is not escaped, and gives what was read and what is behind the quote. -/
def read : List Char → Option (List Char × List Char)
  | '"' :: rest => some ([], rest)
  | '\\' :: 'u' :: a :: b :: c :: d :: rest =>
    andThen (Char.ofNat ([a, b, c, d].foldl (fun n c => 16 * n + Integer.digit c) 0)) (read rest)
  | '\\' :: c :: rest => (escaped? c).bind fun c => andThen c (read rest)
  | c :: rest => andThen c (read rest)
  | [] => none

/-- The string at the front, and what follows it. -/
def unquote? : List Char → Option (List Char × List Char)
  | '"' :: rest => read rest
  | _ => none

theorem read_plain {c : Char} (hquote : c ≠ '"') (hbackslash : c ≠ '\\') (rest : List Char) :
    read (c :: rest) = andThen c (read rest) := by
  rw [read] <;> simp_all

theorem read_control {c : Char} (hc : c.toNat < 0x20) (rest : List Char) :
    read ('\\' :: 'u' :: '0' :: '0' :: Nat.digitChar (c.toNat / 16) :: Nat.digitChar (c.toNat % 16) ::
      rest) = andThen c (read rest) := by
  have hzero : Integer.digit '0' = 0 := by decide
  have hnumber : 16 * (c.toNat / 16) + c.toNat % 16 = c.toNat := by omega
  simp only [read, List.foldl_cons, List.foldl_nil, hzero, Nat.mul_zero, Nat.zero_add,
    Integer.digit_digitChar (c.toNat / 16) (by omega), Integer.digit_digitChar (c.toNat % 16) (by omega),
    hnumber, Char.ofNat_toNat]

theorem read_escape (c : Char) (rest : List Char) :
    read (escape c ++ rest) = andThen c (read rest) := by
  unfold escape
  split
  case h_8 =>
    split
    next hc => exact read_control hc rest
    next => exact read_plain (by assumption) (by assumption) rest
  all_goals rfl

theorem unquote?_quote (cs rest : List Char) :
    unquote? ((quote cs).toList ++ rest) = some (cs, rest) := by
  simpa [quote, unquote?] using read_quoted read_escape (fun _ => rfl) cs rest

theorem not_isLineBreak_of_mem_escape {b c : Char} (h : b ∈ escape c) : ¬IsLineBreak b := by
  unfold escape at h
  split at h
  case h_8 =>
    split at h
    next hc =>
      simp only [List.mem_cons, List.not_mem_nil, or_false] at h
      obtain rfl | rfl | rfl | rfl | rfl | rfl := h
      case inr.inr.inr.inr.inl => exact not_isLineBreak_digitChar _ (by omega)
      case inr.inr.inr.inr.inr => exact not_isLineBreak_digitChar _ (by omega)
      all_goals decide
    next =>
      rw [List.mem_singleton.mp h]
      rintro (rfl | rfl) <;> contradiction
  all_goals
    simp only [List.mem_cons, List.not_mem_nil, or_false] at h
    rcases h with rfl | rfl <;> decide

theorem not_isLineBreak_of_mem_quote {b : Char} {cs : List Char} (h : b ∈ (quote cs).toList) :
    ¬IsLineBreak b := by
  rw [quote, String.toList_ofList] at h
  exact not_isLineBreak_quoted (fun _ _ => not_isLineBreak_of_mem_escape) cs b h

end Json

end StructuredText
