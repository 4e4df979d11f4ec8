import StructuredText.Proofs.Diagnostics
import StructuredText.Proofs.Text.Decimal
import StructuredText.Proofs.Text.Position
import StructuredText.Proofs.Tokens
import StructuredText.Report.Input

/-!
The positions that are reported. Each is that of the place at which a fault starts, which lies between
two characters; so the place can be found from what is printed, and the lines that are printed stand in
the order of the text.
-/

namespace StructuredText

namespace Parse

variable {source : List Char}

theorem isBoundary_start {t : Token} (h : t ∈ Token.lex source) : IsBoundary source t.start := by
  obtain ⟨before, after, hsource, hspan⟩ := Token.stretch_of_mem_lex h
  refine ⟨before, ⟨t.chars ++ after, ?_⟩, ?_⟩
  · rw [hsource, List.append_assoc]
  · exact (congrArg Span.start hspan).symm

/-- Every fault starts between two characters. -/
theorem isBoundary_of_mem {d : Diagnostic} (h : d ∈ (ofText source).diagnostics) :
    IsBoundary source d.span.start := by
  cases hkind : d.kind with
  | lexical =>
      obtain ⟨t, ht, -, rfl⟩ | ⟨fault, -, rfl⟩ := mem_diagnostics.mp h
      · exact isBoundary_start ht
      · cases hkind
  | grammatical =>
      cases located_of_mem h hkind with
      | token t ht _ _ hspan => exact hspan ▸ isBoundary_start ht
      | textEnd hspan => exact hspan ▸ ⟨source, List.prefix_rfl, rfl⟩
      | arguments _ t u ht _ _ _ hspan => exact hspan ▸ isBoundary_start ht

end Parse

namespace Input

variable (input : Input)

/-- The position that a line about a text shows, behind the name of the text. -/
def shownPosition? (line : String) : Option Position := do
  let rest ← (input.name.toList ++ [':']).isPrefixOf? line.toList
  let (lineNumber, rest) ← Decimal.read? rest
  let rest ← [':'].isPrefixOf? rest
  let (column, rest) ← Decimal.read? rest
  if [':', ' '] <+: rest then some ⟨lineNumber, column⟩ else none

theorem toList_errorLine (d : Diagnostic) :
    (input.errorLine d).toList = (input.name.toList ++ [':']) ++
      (Nat.toDigits 10 (input.position d.span.start).line ++ ([':'] ++
        (Nat.toDigits 10 (input.position d.span.start).column ++ ([':', ' '] ++ d.message.toList)))) := by
  have hstring (s : String) : toString s = s := rfl
  simp [errorLine, hstring]

theorem shownPosition?_errorLine (d : Diagnostic) :
    input.shownPosition? (input.errorLine d) = some (input.position d.span.start) := by
  have hcut (front rest : List Char) : front.isPrefixOf? (front ++ rest) = some rest :=
    List.isPrefixOf?_eq_some_iff_append_eq.mpr rfl
  have hline (rest : List Char) : Decimal.Ends ([':'] ++ rest) := Decimal.Ends.cons rfl rest
  have hcolumn (rest : List Char) : Decimal.Ends ([':', ' '] ++ rest) := Decimal.Ends.cons rfl _
  rw [shownPosition?, toList_errorLine]
  simp only [Option.bind_eq_bind, hcut, Option.bind_some, Decimal.read?_toDigits _ (hline _),
    Decimal.read?_toDigits _ (hcolumn _), List.prefix_append, if_true]

/-- The line that counts the other faults shows no position. -/
theorem shownPosition?_rest (count : Nat) :
    input.shownPosition? s!"{input.name}: {count} more error(s) not shown" = none := by
  have hstring (s : String) : toString s = s := rfl
  have hlist : (s!"{input.name}: {count} more error(s) not shown").toList =
      (input.name.toList ++ [':']) ++ ' ' :: (toString count ++ " more error(s) not shown").toList := by
    simp [hstring]
  rw [shownPosition?, hlist, List.isPrefixOf?_eq_some_iff_append_eq.mpr rfl]
  simp only [Option.bind_eq_bind, Option.bind_some]
  rw [Decimal.read?_eq_none (Decimal.Ends.cons rfl _)]
  rfl

/-- What the lines about some faults show: the position of each up to the limit, and none in the line that
counts the rest. -/
theorem map_shownPosition? (diagnostics : List Diagnostic) (limit : Nat) :
    (input.errorLines diagnostics limit).map input.shownPosition? =
      ((diagnostics.take limit).map fun d => some (input.position d.span.start)) ++
        if limit < diagnostics.length then [none] else [] := by
  rw [errorLines, List.map_append, List.map_map]
  congr 1
  · exact List.map_congr_left fun d _ => input.shownPosition?_errorLine d
  · split
    · exact congrArg (fun shown => [shown]) (input.shownPosition?_rest _)
    · rfl

/-- Positions in a text are exact. Places between characters have positions in the same order, by line and
then by column, and the offset of a place is found again by going through the line feeds before the line
and on by a character for each column; an offset beyond the end has the position of the end. All faults
start between characters. So the lines that are printed about them show positions that do not go back,
and each denotes the start of its fault. -/
theorem positions_exact (input : Input) :
    let source := input.text
    let diagnostics := (Parse.ofText source).diagnostics
    (∀ a b, IsBoundary source a → IsBoundary source b →
      (a < b ↔ (input.position a).Before (input.position b))) ∧
    (∀ a, IsBoundary source a → (input.position a).offset source = a) ∧
    (∀ a, byteLength source ≤ a → input.position a = input.position (byteLength source)) ∧
    (∀ d ∈ diagnostics, IsBoundary source d.span.start) ∧
    ∀ limit, ∃ shown : List Position,
      (input.errorLines diagnostics limit).map input.shownPosition? =
        shown.map some ++ (if limit < diagnostics.length then [none] else []) ∧
      shown.Pairwise (fun p q => ¬q.Before p) ∧
      shown.map (Position.offset source) = (diagnostics.take limit).map fun d => d.span.start := by
  intro source diagnostics
  have hboundary : ∀ d ∈ diagnostics, IsBoundary source d.span.start :=
    fun d => Parse.isBoundary_of_mem
  refine ⟨fun a b => Position.lt_iff_before, fun a => Position.offset_ofOffset,
    fun a => Position.ofOffset_end, hboundary, fun limit => ?_⟩
  have htake : ∀ d ∈ diagnostics.take limit, IsBoundary source d.span.start :=
    fun d hd => hboundary d (List.mem_of_mem_take hd)
  refine ⟨(diagnostics.take limit).map fun d => input.position d.span.start, ?_, ?_, ?_⟩
  · rw [map_shownPosition?, List.map_map]
    rfl
  · have hsorted : diagnostics.Pairwise fun d e => d.span.start ≤ e.span.start :=
      Parse.diagnostics_sorted _
    rw [List.pairwise_map]
    refine (hsorted.sublist (List.take_sublist _ _)).imp_of_mem fun hd he hle hbefore => ?_
    have hlt := (Position.lt_iff_before (htake _ he) (htake _ hd)).mpr hbefore
    omega
  · rw [List.map_map]
    exact List.map_congr_left fun d hd => Position.offset_ofOffset (htake d hd)

end Input

end StructuredText
