import Mathlib.Data.List.Nodup
import StructuredText.Descent.Basic
import StructuredText.Grammar.Outline
import StructuredText.Proofs.Descent.Cursor
import StructuredText.Proofs.Descent.Faults

/-!
The parser and the rules of the grammar side by side. The parser works on the tokens of a text, with all
trivia, and knows places by their bytes; a rule works on symbols, and knows places by their numbers. A state
of the one mirrors a state of the other if it is at the same place, and has written and reported the same;
the steps that all constructs are made of keep this.
-/

namespace StructuredText

open Parse (significant startOf)

/-! ### Wordings -/

namespace Problem

/-- All problems. -/
def all : List Problem :=
  (List.range 70).map (fun n => missing (TokenKind.ofNat n)) ++
    [programName, functionName, functionBlockName, typeName, variableName, memberName, outputVariable,
      expression, statement, caseLabel, variableDeclaration, structField, assignmentOrCall, declaration,
      mixedDeclarations, conversionArity, nestingTooDeep]

theorem mem_all (p : Problem) : p ∈ all := by
  cases p with
  | missing k =>
      refine List.mem_append_left _ (List.mem_map.mpr ⟨k.ctorIdx, ?_, ?_⟩)
      · cases k <;> decide
      · cases k <;> rfl
  | _ => decide

/-- No two problems are worded alike. -/
theorem eq_of_message_eq {p q : Problem} (h : p.message = q.message) : p = q := by
  have hnodup : (all.map message).Nodup := by decide +kernel
  exact List.inj_on_of_nodup_map hnodup (mem_all p) (mem_all q) h

end Problem

namespace Descent

/-- A state of the parser in a text and a state of a rule that have come to the same. -/
structure Mirrors (source : List Char) (d : Descent) (s : ParserState) : Prop where
  passed : ∃ before, Token.lex source = before ++ d.cursor.rest ∧ (significant before).length = s.position
  size : d.cursor.size = byteLength source
  ahead : d.cursor.ahead = s.ahead
  previous : ∀ i t, i + 1 = s.position → (significant (Token.lex source))[i]? = some t →
    d.cursor.previous = t.span
  written : d.written = s.written
  errors : d.errors =
    s.faults.map (.ofFault (significant (Token.lex source)) (byteLength source))
  /-- No fault lies ahead, and all but those of conversions lie at one symbol. -/
  placed : ∀ f ∈ s.faults, f.first ≤ s.position ∧ (f.problem = .conversionArity ∨ f.last = f.first)

variable {source : List Char} {d : Descent} {s : ParserState}

namespace Mirrors

/-! ### What both see -/

theorem kindAt_eq (h : Mirrors source d s) (n : Nat) : d.cursor.kindAt n = s.ahead.kindAt n := by
  rw [Cursor.kindAt_eq, h.ahead]

theorem kind_eq (h : Mirrors source d s) : d.kind = s.ahead.kind :=
  h.kindAt_eq 0

theorem isAt_eq (h : Mirrors source d s) (k : TokenKind) : d.isAt k = decide (s.ahead.kind = k) := by
  rw [isAt, h.kind_eq]

theorem isAtAny_eq (h : Mirrors source d s) (ks : List TokenKind) :
    d.isAtAny ks = ks.contains s.ahead.kind := by
  rw [isAtAny, h.kind_eq]

theorem atEnd_eq (h : Mirrors source d s) : d.atEnd = s.ahead.atEnd :=
  h.isAt_eq .eof

theorem atSyncPoint_eq (h : Mirrors source d s) : d.atSyncPoint = s.ahead.kind.endsStatement := by
  rw [atSyncPoint, h.kind_eq]

theorem atListEnd_eq (h : Mirrors source d s) : d.atListEnd = s.ahead.kind.endsList := by
  rw [atListEnd, h.atSyncPoint_eq, h.isAt_eq, TokenKind.endsList]
  simp

theorem kindAfterPragmas_eq (h : Mirrors source d s) :
    d.cursor.kindAfterPragmas = s.ahead.kindAfterPragmas := by
  rw [Cursor.kindAfterPragmas_eq, h.ahead]

theorem atCaseLabel_eq (h : Mirrors source d s) : d.atCaseLabel = s.ahead.atCaseLabel := by
  rw [atCaseLabel, h.isAtAny_eq, Cursor.hasLabelAhead_eq, h.ahead, Ahead.atCaseLabel]
  cases s.ahead.kind <;> rfl

theorem left_eq (h : Mirrors source d s) : d.cursor.left = s.ahead.length := by
  rw [Cursor.left_eq, h.ahead]

/-- The tokens ahead have the numbers from the position on. -/
theorem getElem?_eq (h : Mirrors source d s) (n : Nat) :
    (significant (Token.lex source))[s.position + n]? = d.cursor.tokenAt n := by
  obtain ⟨before, hlex, hposition⟩ := h.passed
  rw [Cursor.tokenAt_eq, hlex, Parse.significant_append, ← hposition,
    List.getElem?_append_right (Nat.le_add_right _ _), Nat.add_sub_cancel_left]

theorem position_le (h : Mirrors source d s) :
    s.position ≤ (significant (Token.lex source)).length := by
  obtain ⟨before, hlex, hposition⟩ := h.passed
  rw [hlex, Parse.significant_append, List.length_append]
  omega

/-- The current span is that of a fault at the position. -/
theorem span_eq (h : Mirrors source d s) (problem : Problem) :
    Diagnostic.ofProblem problem d.cursor.span =
      .ofFault (significant (Token.lex source)) (byteLength source) ⟨problem, s.position, s.position⟩ := by
  rw [Diagnostic.ofProblem, Diagnostic.ofFault, Cursor.span, ← h.getElem?_eq 0, Nat.add_zero, h.size]
  cases (significant (Token.lex source))[s.position]? with
  | none => rfl
  | some t => rfl

theorem start_eq (h : Mirrors source d s) :
    d.cursor.span.start = startOf (Token.lex source) (byteLength source) s.position :=
  congrArg (fun e => e.span.start) (h.span_eq .expression)

/-- The text has ended exactly if no symbol is ahead. -/
theorem atEnd_iff (h : Mirrors source d s) : d.atEnd ↔ s.ahead = [] := by
  rw [h.atEnd_eq, Ahead.atEnd, decide_eq_true_iff]
  constructor
  · intro hkind
    obtain ⟨before, hlex, -⟩ := h.passed
    cases hahead : s.ahead with
    | nil => rfl
    | cons x a =>
        rw [hahead] at hkind
        have hmem : x ∈ d.cursor.ahead := by rw [h.ahead, hahead]; exact List.mem_cons_self
        obtain ⟨t, ht, rfl⟩ := List.mem_map.mp hmem
        have hlexed : t ∈ Token.lex source := by
          rw [hlex]
          exact List.mem_append_right _ (List.mem_filter.mp ht).1
        exact absurd hkind (Token.kind_ne_eof_of_mem_lexFrom hlexed)
  · intro hahead
    rw [hahead]
    rfl

/-! ### Steps -/

/-- The next symbol is that of the next token that is no trivia, and the parser goes through both. -/
theorem exists_token (h : Mirrors source d s) {x : Symbol} {a : Ahead} (hahead : s.ahead = x :: a) :
    ∃ trivia t behind, d.cursor.rest = trivia ++ t :: behind ∧ significant trivia = [] ∧
      t.isTrivia = false ∧ d.cursor.bump = { d.cursor with rest := behind, previous := t.span } ∧
      x = Symbol.ofToken t ∧ a = (significant behind).map Symbol.ofToken := by
  have hsymbols : (significant d.cursor.rest).map Symbol.ofToken = x :: a := h.ahead.trans hahead
  rcases d.cursor.pass_eq d.cursor.rest with ⟨hnone, -⟩ | ⟨trivia, t, behind, hrest, htrivia, ht, hpass⟩
  · rw [hnone] at hsymbols
    cases hsymbols
  · rw [hrest, Parse.significant_append, htrivia, Cursor.significant_of_not_trivia ht, List.nil_append,
      List.map_cons] at hsymbols
    obtain ⟨hx, ha⟩ := List.cons.inj hsymbols
    exact ⟨trivia, t, behind, hrest, htrivia, ht, hpass, hx.symm, ha.symm⟩

theorem bump (h : Mirrors source d s) : Mirrors source d.bump (s.consume 1) := by
  cases hahead : s.ahead with
  | nil =>
      have hsame : s.consume 1 = s := by
        cases s
        cases hahead
        simp [ParserState.consume, Forest.ofLeaves]
      rw [Descent.bump, if_pos (h.atEnd_iff.mpr hahead), hsame]
      exact h
  | cons x a =>
      have hmore : ¬d.atEnd := fun hend => by simpa [hahead] using h.atEnd_iff.mp hend
      obtain ⟨trivia, t, behind, hrest, htrivia, ht, hbump, rfl, rfl⟩ := h.exists_token hahead
      obtain ⟨before, hlex, hposition⟩ := h.passed
      have hconsume : s.consume 1 = ⟨(significant behind).map Symbol.ofToken, s.position + 1,
          s.written ++ .leaf t.kind .nil, s.faults⟩ := by
        simp [ParserState.consume, hahead, Forest.ofLeaves, Symbol.ofToken]
      have hkind : d.kind = t.kind := by
        rw [h.kind_eq, hahead]
        rfl
      have hpassed : (significant (before ++ (trivia ++ [t]))).length = s.position + 1 := by
        rw [Parse.significant_append, Parse.significant_append, htrivia, List.length_append, hposition,
          Cursor.significant_of_not_trivia ht]
        rfl
      have htoken : (significant (Token.lex source))[s.position]? = some t := by
        rw [← Nat.add_zero s.position, h.getElem?_eq 0, Cursor.tokenAt_eq, hrest, Parse.significant_append,
          htrivia, Cursor.significant_of_not_trivia ht]
        rfl
      rw [Descent.bump, if_neg hmore, hconsume, hbump]
      exact {
        passed := ⟨before ++ (trivia ++ [t]), by simp [hlex, hrest], hpassed⟩
        size := h.size
        ahead := rfl
        previous := by
          intro i u hi hu
          obtain rfl : i = s.position := Nat.succ.inj hi
          rw [Option.some.inj (hu.symm.trans htoken)]
        written := by rw [h.written, hkind]
        errors := h.errors
        placed := fun f hf => ⟨Nat.le_succ_of_le (h.placed f hf).1, (h.placed f hf).2⟩ }

/-! ### Reports -/

/-- The last report repeats a problem at the current token exactly if the last fault does. -/
theorem repeated_iff (h : Mirrors source d s) {problem : Problem} (hproblem : problem ≠ .conversionArity) :
    (d.errors.head?.any fun last => last.span = (Diagnostic.ofProblem problem d.cursor.span).span &&
        last.message = (Diagnostic.ofProblem problem d.cursor.span).message) =
      decide (s.faults.head? = some ⟨problem, s.position, s.position⟩) := by
  rw [h.errors, List.head?_map, h.span_eq problem]
  cases hfaults : s.faults with
  | nil => rfl
  | cons f rest =>
      obtain ⟨hfirst, hlast⟩ := h.placed f (by rw [hfaults]; exact List.mem_cons_self)
      simp only [List.head?_cons, Option.map_some, Option.any_some, Option.some.injEq]
      rw [Bool.eq_iff_iff, Bool.and_eq_true, decide_eq_true_iff, decide_eq_true_iff, decide_eq_true_iff]
      constructor
      · rintro ⟨hspan, hmessage⟩
        have hsame : f.problem = problem := Problem.eq_of_message_eq hmessage
        have hstart := congrArg Span.start hspan
        have hplace : f.first = s.position := Nat.le_antisymm hfirst
          ((Parse.startOf_le_iff h.position_le (hfirst.trans h.position_le)).mp (Nat.le_of_eq hstart.symm))
        have hone : f.last = f.first := hlast.resolve_left fun harity => hproblem (hsame ▸ harity)
        cases f
        simp_all
      · rintro rfl
        exact ⟨rfl, rfl⟩

theorem report (h : Mirrors source d s) {problem : Problem} (hproblem : problem ≠ .conversionArity) :
    Mirrors source (d.report problem) (s.report problem) := by
  rw [Descent.report, ParserState.report, h.isAt_eq]
  by_cases herror : s.ahead.kind = .error
  · simpa [herror] using h
  simp only [herror, decide_false, Bool.false_eq_true, if_false, Bool.false_or,
    h.repeated_iff hproblem]
  by_cases hrepeated : s.faults.head? = some ⟨problem, s.position, s.position⟩
  · simpa [hrepeated] using h
  · simp only [hrepeated, decide_false, Bool.false_eq_true, if_false]
    exact { h with
      errors := by rw [h.errors, h.span_eq problem, List.map_cons]
      placed := List.forall_mem_cons.mpr ⟨⟨Nat.le_refl _, .inr rfl⟩, h.placed⟩ }

/-- A report about the arguments of a conversion goes to the end of the last token that was passed. -/
theorem reportAt {i : Nat} (h : Mirrors source d s) (hi : i < s.position) :
    Mirrors source
      (d.reportAt .conversionArity
        ⟨startOf (Token.lex source) (byteLength source) i, d.cursor.previous.stop⟩)
      { s with faults := ⟨.conversionArity, i, s.position - 1⟩ :: s.faults } := by
  have hlast : s.position - 1 < (significant (Token.lex source)).length := by
    have := h.position_le
    omega
  have htoken := List.getElem?_eq_getElem hlast
  have hprevious := h.previous (s.position - 1) _ (by omega) htoken
  exact { h with
    errors := by
      rw [Descent.reportAt, h.errors, List.map_cons, Diagnostic.ofFault, htoken, hprevious]
      rfl
    placed := List.forall_mem_cons.mpr ⟨⟨Nat.le_of_lt hi, .inl rfl⟩, h.placed⟩ }

/-- The last report is about the current place exactly if the last fault is. -/
theorem reportedHere_eq (h : Mirrors source d s) :
    (d.errors.head?.any fun last => last.span.start = d.cursor.span.start) = s.isBlamed := by
  rw [h.errors, List.head?_map, ParserState.isBlamed, h.start_eq]
  cases hfaults : s.faults with
  | nil => rfl
  | cons f rest =>
      obtain ⟨hfirst, -⟩ := h.placed f (by rw [hfaults]; exact List.mem_cons_self)
      refine decide_eq_decide.mpr ⟨fun hstart => ?_, fun hplace => congrArg (startOf _ _) hplace⟩
      exact Nat.le_antisymm hfirst
        ((Parse.startOf_le_iff h.position_le (hfirst.trans h.position_le)).mp (Nat.le_of_eq hstart.symm))

end Mirrors

end Descent

end StructuredText
