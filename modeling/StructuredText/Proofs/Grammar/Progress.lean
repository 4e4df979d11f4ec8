import StructuredText.Proofs.Grammar.Run

/-!
Where rules consume symbols. A rule advances before some symbols if following it there consumes at
least one of them, with any number of levels left. The body of a loop that advances wherever the
test of the loop holds makes the loop end by its test; in this way the loop over declarations comes
to the end of the text.
-/

namespace StructuredText

open ParserState

namespace Ahead

variable {a : Ahead}

theorem ne_nil_of_kind_ne_eof (h : a.kind ≠ .eof) : a ≠ [] := by
  rintro rfl
  exact h rfl

theorem eq_cons_of_kind {k : TokenKind} (h : a.kind = k) (hk : k ≠ .eof) :
    ∃ x b, a = x :: b ∧ x.kind = k := by
  cases a with
  | nil => exact absurd h.symm hk
  | cons x b => exact ⟨x, b, rfl, h⟩

@[simp] theorem kind_cons (x : Symbol) (b : Ahead) : Ahead.kind (x :: b) = x.kind := rfl

@[simp] theorem kind_nil : Ahead.kind [] = .eof := rfl

@[simp] theorem kindAt_cons_succ (x : Symbol) (b : Ahead) (n : Nat) :
    Ahead.kindAt (x :: b) (n + 1) = b.kindAt n := rfl

@[simp] theorem kindAt_zero (a : Ahead) : a.kindAt 0 = a.kind := rfl

theorem firstAndUntil_pos (p : TokenKind → Bool) (h : a ≠ []) : 0 < a.firstAndUntil p := by
  obtain ⟨x, b, rfl⟩ := List.exists_cons_of_ne_nil h
  exact Nat.succ_pos _

end Ahead

namespace Rule

/-- Following the rule before some symbols, with a number of levels left, consumes one of them. -/
def Advances (levels : Nat) (rule : Rule) (a : Ahead) : Prop :=
  ∀ s : ParserState, s.ahead = a → (rule.run (Entry.run levels) s).ahead.length < a.length

variable {levels : Nat} {r : Rule} {a : Ahead}

theorem ahead_suffix (levels : Nat) (rule : Rule) (s : ParserState) :
    (rule.run (Entry.run levels) s).ahead <:+ s.ahead :=
  ahead_suffix_invariant.run (ahead_suffix_invariant.entry levels) rule s

theorem Advances.seq (h : r.Advances levels a) (r' : Rule) : (Rule.seq r r').Advances levels a := by
  intro s hs
  exact Nat.lt_of_le_of_lt (ahead_suffix levels r' _).length_le (h s hs)

/-- A report consumes nothing, so what follows it has to. -/
theorem Advances.after_report (h : r.Advances levels a) (problem : Problem) :
    (Rule.seq (.report problem) r).Advances levels a := by
  intro s hs
  exact h _ ((s.ahead_report problem).trans hs)

theorem Advances.all (h : r.Advances levels a) (rs : List Rule) :
    (all (r :: rs)).Advances levels a := by
  cases rs with
  | nil => exact h
  | cons r' rs => exact h.seq _

theorem Advances.look {choice : Ahead → Rule} (h : (choice a).Advances levels a) :
    (Rule.look choice).Advances levels a := by
  rintro s rfl
  exact h s rfl

theorem Advances.frame (h : r.Advances levels a) : (Rule.frame r).Advances levels a := by
  intro s hs
  exact h _ hs

theorem Advances.node (h : r.Advances levels a) (kind : NodeKind) :
    (node kind r).Advances levels a :=
  (h.seq _).frame

theorem advances_consume {count : Ahead → Nat} (ha : a ≠ []) (hcount : 0 < count a) :
    (Rule.consume count).Advances levels a := by
  rintro s rfl
  have hlength : 0 < s.ahead.length := List.length_pos_iff.mpr ha
  simp only [Rule.run, ParserState.consume, List.length_drop]
  omega

theorem advances_advance (ha : a ≠ []) : advance.Advances levels a :=
  advances_consume ha Nat.one_pos

theorem advances_single (ha : a ≠ []) (kind : NodeKind) : (single kind).Advances levels a :=
  (advances_advance ha).node kind

theorem Advances.repeatWhile {test : Ahead → Bool} (h : r.Advances levels a) (ha : a ≠ [])
    (htest : test a) : (Rule.repeatWhile test r).Advances levels a := by
  rintro s rfl
  have hturn := h s rfl
  -- There is a symbol ahead, so the bound of the loop allows its first turn.
  cases hn : s.ahead.length with
  | zero => exact absurd (List.length_eq_zero_iff.mp hn) ha
  | succ n =>
      simp only [Rule.run, hn, iterate, htest, if_true]
      rw [hn] at hturn
      refine Nat.lt_of_le_of_lt ?_ hturn
      exact (ahead_suffix_invariant.iterate (ahead_suffix levels r) n _).length_le

/-- A loop whose body advances under the test of the loop ends by that test. -/
theorem repeatWhile_exit {test : Ahead → Bool} {body : Rule}
    (h : ∀ a, test a → body.Advances levels a) (s : ParserState) :
    test ((Rule.repeatWhile test body).run (Entry.run levels) s).ahead = false :=
  iterate_exit (fun t ht => h t.ahead ht t rfl) _ s (Nat.le_refl _)

theorem repeatWhile_of_not {test : Ahead → Bool} {s : ParserState} (h : test s.ahead = false) :
    (Rule.repeatWhile test r).run (Entry.run levels) s = s := by
  simp only [Rule.run]
  cases s.ahead.length with
  | zero => rfl
  | succ n => simp [iterate, h]

/-- A loop whose body advances may be unrolled. -/
theorem repeatWhile_of_test {test : Ahead → Bool} {s : ParserState}
    (h : ∀ a, test a → r.Advances levels a) (htest : test s.ahead) :
    (Rule.repeatWhile test r).run (Entry.run levels) s =
      (Rule.repeatWhile test r).run (Entry.run levels) (r.run (Entry.run levels) s) := by
  have hshorter := h s.ahead htest s rfl
  -- The bound of the loop goes down by one in a turn, what is ahead by one or more.
  obtain ⟨n, hn⟩ : ∃ n, s.ahead.length = (r.run (Entry.run levels) s).ahead.length + n + 1 :=
    ⟨s.ahead.length - (r.run (Entry.run levels) s).ahead.length - 1, by omega⟩
  have hexit := repeatWhile_exit h (r.run (Entry.run levels) s)
  simp only [Rule.run] at hexit ⊢
  rw [hn]
  simp only [iterate, htest, if_true]
  exact iterate_add hexit n

end Rule

/-! ### The end of the text -/

namespace Grammar

open Rule

variable {levels : Nat} {a : Ahead}

theorem pragmas_advances (h : a.kind = .pragma) : pragmas.Advances levels a := by
  have ha : a ≠ [] := Ahead.ne_nil_of_kind_ne_eof (by rw [h]; decide)
  exact (advances_single ha .pragmaItem).repeatWhile ha (by simpa using h)

theorem declaration_advances (h : a.kind ≠ .eof) : declaration.Advances levels a := by
  have ha : a ≠ [] := Ahead.ne_nil_of_kind_ne_eof h
  refine Advances.look ?_
  simp only
  split
  · exact ((advances_advance ha).all _).node _
  · exact ((advances_advance ha).all _).node _
  · exact ((advances_advance ha).all _).node _
  · exact ((advances_advance ha).all _).node _
  · rename_i hpragma
    exact pragmas_advances hpragma
  · exact advances_single ha .error
  · refine Advances.after_report (Advances.node (advances_consume ha ?_) .error) _
    exact Ahead.firstAndUntil_pos _ ha

theorem declarations_atEnd (s : ParserState) :
    (declarations.run (Entry.run levels) s).ahead.kind = .eof := by
  have hbody (a : Ahead) (ha : !a.atEnd) : declaration.Advances levels a :=
    declaration_advances (by simpa [Ahead.atEnd] using ha)
  have hexit : (!Ahead.atEnd (declarations.run (Entry.run levels) s).ahead) = false :=
    repeatWhile_exit hbody s
  simpa [Ahead.atEnd] using hexit

/-- Of statements, all is written at the end that no block took. -/
theorem statements_atEnd (s : ParserState) :
    (statements.run (Entry.run levels) s).ahead.kind = .eof := by
  simp only [statements, choose, Rule.run]
  generalize (block ⟨[], false⟩).run (Entry.run levels) s = t
  split
  · rename_i h
    simpa [Ahead.atEnd, Rule.run] using h
  · simp [Rule.run, Rule.node, inFrame, ParserState.consume]

theorem parse_atEnd (symbols : Ahead) : (parse symbols).ahead.kind = .eof := by
  simp only [parse, sourceFile, choose, Rule.run]
  split
  · exact declarations_atEnd _
  · exact statements_atEnd _

/-- No symbol of a text is left when it was parsed. -/
theorem parse_ahead_eq_nil {symbols : Ahead} (h : ∀ x ∈ symbols, x.kind ≠ .eof) :
    (parse symbols).ahead = [] := by
  have hsuffix : (parse symbols).ahead <:+ symbols := Rule.ahead_suffix nestingLimit sourceFile _
  cases hahead : (parse symbols).ahead with
  | nil => rfl
  | cons x b =>
      have hx : x ∈ symbols := hsuffix.subset (by simp [hahead])
      have hend := parse_atEnd symbols
      rw [hahead] at hend
      exact absurd hend (h x hx)

/-- The leaves of an outline are the kinds of the symbols it was made from. -/
theorem parse_leaves {symbols : Ahead} (h : ∀ x ∈ symbols, x.kind ≠ .eof) :
    (parse symbols).written.leaves = symbols.map Symbol.kind := by
  have hconserves : Conserves (ParserState.start symbols) (parse symbols) :=
    conserves_invariant.run (conserves_invariant.entry nestingLimit) sourceFile _
  simpa [Conserves, parse_ahead_eq_nil h, ParserState.start, Forest.leaves] using hconserves

end Grammar

end StructuredText
