import StructuredText.Proofs.Grammar.Derivation
import StructuredText.Proofs.Grammar.Progress

/-!
What is ahead when a rule is done, on any text. Pragmas are read up to the first symbol that is
none. An expression is left only before a symbol that cannot go on with it: no operator of its
levels, and no pragma that would still belong to it.
-/

namespace StructuredText

open ParserState Rule

/-! ### Pragmas -/

namespace Ahead

/-- The symbols from the first one on that is no pragma. -/
def afterPragmas (a : Ahead) : Ahead :=
  a.dropWhile fun x => x.kind = .pragma

variable {a : Ahead}

theorem kind_ne_pragma (h : ∀ x ∈ a, x.kind ≠ .pragma) : a.kind ≠ .pragma := by
  cases a with
  | nil => decide
  | cons x b => exact h x List.mem_cons_self

theorem kind_afterPragmas (a : Ahead) : a.afterPragmas.kind = a.kindAfterPragmas := rfl

theorem afterPragmas_of_kind_ne (h : a.kind ≠ .pragma) : a.afterPragmas = a := by
  cases a with
  | nil => rfl
  | cons x b =>
      have hx : x.kind ≠ .pragma := h
      simp [afterPragmas, hx]

theorem kindAfterPragmas_of_kind_ne (h : a.kind ≠ .pragma) : a.kindAfterPragmas = a.kind := by
  rw [← kind_afterPragmas, afterPragmas_of_kind_ne h]

theorem kind_afterPragmas_ne (a : Ahead) : a.afterPragmas.kind ≠ .pragma := by
  induction a with
  | nil => simp [afterPragmas]
  | cons x b ih =>
      by_cases hx : x.kind = .pragma
      · simpa [afterPragmas, hx] using ih
      · simp [afterPragmas, hx]

theorem not_pragmasInline_of_kind_ne (h : a.kind ≠ .pragma) : a.pragmasInline = false := by
  simp [pragmasInline, h]

end Ahead

namespace Grammar

variable {levels : Nat}

theorem ahead_single (levels : Nat) (kind : NodeKind) (s : ParserState) :
    ((single kind).run (Entry.run levels) s).ahead = s.ahead.tail := by
  simp [single, Rule.node, Rule.advance, Rule.run, inFrame, ParserState.consume]

theorem pragmas_of_kind_ne {s : ParserState} (h : s.ahead.kind ≠ .pragma) :
    pragmas.run (Entry.run levels) s = s :=
  repeatWhile_of_not (by simpa using h)

theorem inlinePragmas_of_not_inline {s : ParserState} (h : s.ahead.pragmasInline = false) :
    inlinePragmas.run (Entry.run levels) s = s := by
  simp [inlinePragmas, choose, Rule.run, h]

theorem ahead_pragmas (levels : Nat) (s : ParserState) :
    (pragmas.run (Entry.run levels) s).ahead = s.ahead.afterPragmas := by
  have hbody (a : Ahead) (ha : decide (a.kind = .pragma)) :
      (single .pragmaItem).Advances levels a :=
    advances_single (Ahead.ne_nil_of_kind_ne_eof (by simp_all)) _
  have hexit : decide ((pragmas.run (Entry.run levels) s).ahead.kind = .pragma) = false :=
    repeatWhile_exit hbody s
  -- A turn of the loop drops a pragma, which changes nothing of what is behind the pragmas.
  have hkept : (pragmas.run (Entry.run levels) s).ahead.afterPragmas = s.ahead.afterPragmas := by
    refine iterate_induction (fun t => t.ahead.afterPragmas = s.ahead.afterPragmas) ?_ _ s rfl
    intro t ht htest
    obtain ⟨x, b, hahead, hx⟩ := Ahead.eq_cons_of_kind (of_decide_eq_true htest) nofun
    rw [ahead_single, hahead, ← ht, hahead]
    simp [Ahead.afterPragmas, hx]
  rw [← hkept, Ahead.afterPragmas_of_kind_ne (by simpa using hexit)]

theorem ahead_inlinePragmas (levels : Nat) (s : ParserState) :
    (inlinePragmas.run (Entry.run levels) s).ahead =
      if s.ahead.pragmasInline then s.ahead.afterPragmas else s.ahead := by
  simp only [inlinePragmas, choose, Rule.run]
  split
  · exact ahead_pragmas levels s
  · rfl

/-- Pragmas are not read twice. -/
theorem not_pragmasInline_inlinePragmas (levels : Nat) (s : ParserState) :
    (inlinePragmas.run (Entry.run levels) s).ahead.pragmasInline = false := by
  rw [ahead_inlinePragmas]
  split
  · exact Ahead.not_pragmasInline_of_kind_ne (Ahead.kind_afterPragmas_ne _)
  · rename_i h
    simpa using h

end Grammar

/-! ### Constructs that are nested too deeply -/

namespace TokenKind

/-- The symbols before which skipping stops. -/
def endsSkipping (stops : List TokenKind) (k : TokenKind) : Bool :=
  k = .eof || k.opensDeclaration || k.closesDeclaration || k.endsStatement ||
    [.rparen, .rbracket].contains k || stops.contains k

end TokenKind

namespace Ahead

theorem tooDeep_stops (stops : List TokenKind) (depth : Nat) (a : Ahead) :
    (Ahead.kind (a.drop (tooDeep stops depth a))).endsSkipping stops := by
  induction a generalizing depth with
  | nil => simp [TokenKind.endsSkipping]
  | cons x a ih =>
      unfold tooDeep
      split
      · rename_i h
        rcases Bool.or_eq_true _ _ |>.mp h with h | h <;> simp [TokenKind.endsSkipping, h]
      · split
        · exact ih _
        · exact ih _
        · exact ih _
        · exact ih _
        · rename_i hk
          split
          · simp [TokenKind.endsSkipping, hk]
          · exact ih _
        · rename_i hk
          split
          · simp [TokenKind.endsSkipping, hk]
          · exact ih _
        · rename_i hk
          split
          · simp [TokenKind.endsSkipping, hk, TokenKind.endsStatement]
          · exact ih _
        · rename_i hk
          split
          · simp [TokenKind.endsSkipping, hk, TokenKind.endsStatement]
          · exact ih _
        · split
          · rename_i h
            simp only [Bool.and_eq_true, Bool.or_eq_true] at h
            rcases h.2 with h | h
            · simp [TokenKind.endsSkipping, h]
            · simp only [TokenKind.endsSkipping, List.drop_zero, kind_cons, h, Bool.or_true]
          · exact ih _

end Ahead

/-! ### Expressions -/

namespace Grammar

variable {levels least : Nat} {a : Ahead}

/-- No symbol ahead goes on with an expression of at least a level. -/
structure EndsExpression (least : Nat) (a : Ahead) : Prop where
  noOperator : atOperator least a = false
  noPragmas : a.pragmasInline = false

theorem atOperator_iff :
    atOperator least a ↔ ∃ b, a.kind.binding? = some b ∧ least ≤ b.level := by
  simp [atOperator, Option.any_eq_true]

theorem atOperator_eq_false_iff :
    atOperator least a = false ↔ ∀ b, a.kind.binding? = some b → b.level < least := by
  rw [Bool.eq_false_iff, ne_eq, atOperator_iff]
  simp

theorem rightLevel_of_binding {k : TokenKind} {b : Binding} (h : k.binding? = some b) :
    rightLevel k = b.right := by
  simp [rightLevel, h, Binding.right]

theorem ne_nil_of_atOperator (h : atOperator least a) : a ≠ [] := by
  rintro rfl
  exact absurd h (by simp [atOperator, TokenKind.binding?])

theorem endsExpression_of_endsSkipping
    (h : a.kind.endsSkipping (Entry.expression least).stops) : EndsExpression least a := by
  have hkinds : ∀ k : TokenKind, k.endsSkipping (Entry.expression 0).stops →
      k.binding? = none ∧ k ≠ .pragma := by
    intro k
    cases k <;> decide
  obtain ⟨hbinding, hpragma⟩ := hkinds a.kind h
  exact ⟨by simp [atOperator, hbinding], Ahead.not_pragmasInline_of_kind_ne hpragma⟩

theorem operatorTail_advances (h : atOperator least a) : operatorTail.Advances levels a :=
  Advances.look ((advances_advance (ne_nil_of_atOperator h)).all _)

theorem not_pragmasInline_operatorTail (levels : Nat) (s : ParserState) :
    (operatorTail.run (Entry.run levels) s).ahead.pragmasInline = false := by
  simp only [operatorTail, byKind, all, Rule.run]
  exact not_pragmasInline_inlinePragmas levels _

theorem endsExpression_operation (levels least : Nat) (s : ParserState) :
    EndsExpression least ((operation least).run (Entry.run levels) s).ahead := by
  let t := inlinePragmas.run (Entry.run levels)
    (signedOperand.run (Entry.run levels) { s with written := .nil })
  change EndsExpression least ((Rule.repeatWhile (atOperator least) operatorTail).run
    (Entry.run levels) t).ahead
  -- The loop ends by its test, and before each test the pragmas that belong here were read.
  refine ⟨repeatWhile_exit (fun a ha => operatorTail_advances ha) t, ?_⟩
  refine iterate_induction (fun t => t.ahead.pragmasInline = false) ?_ _ t ?_
  · intro u _ _
    exact not_pragmasInline_operatorTail levels u
  · exact not_pragmasInline_inlinePragmas levels _

/-- After any expression, faulty and skipped ones too, none of what is ahead belongs to it. -/
theorem endsExpression_entry (levels least : Nat) (s : ParserState) :
    EndsExpression least ((Entry.expression least).run levels s).ahead := by
  cases levels with
  | zero =>
      refine endsExpression_of_endsSkipping ?_
      simpa [Entry.run, Entry.skipped, Rule.node, Rule.run, inFrame, ParserState.consume] using
        Ahead.tooDeep_stops (Entry.expression least).stops 0 s.ahead
  | succ levels => exact endsExpression_operation levels least s

theorem endsExpression_expression (levels least : Nat) (s : ParserState) :
    EndsExpression least ((expression least).run (Entry.run levels) s).ahead :=
  endsExpression_entry levels least _

end Grammar

end StructuredText
