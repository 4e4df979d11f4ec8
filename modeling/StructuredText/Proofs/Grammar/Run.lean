import StructuredText.Grammar.Outline

/-!
What following a rule can do to a parser state. A relation between the states before and after that
holds of the few primitive steps, and survives frames, holds of every rule of the grammar under any
number of levels; so no later fact about all rules needs an induction of its own. The relations of
this kind that are used throughout stand here: symbols are neither lost nor doubled, what is ahead
only gets shorter, and reports are never taken back.
-/

namespace StructuredText

open ParserState

/-! ### Relations that every rule keeps -/

/-- A relation between the states before and after a step that holds of the primitive steps. -/
structure ParserState.Invariant (R : ParserState → ParserState → Prop) : Prop where
  refl (s : ParserState) : R s s
  trans {s t u : ParserState} : R s t → R t u → R s u
  consume (s : ParserState) (n : Nat) : R s (s.consume n)
  enclose (s : ParserState) (kind : NodeKind) : R s { s with written := .node kind s.written .nil }
  fault (s : ParserState) (fault : Fault) : R s { s with faults := fault :: s.faults }
  /-- Writing into an empty frame is as good as writing behind what was there. -/
  frame {s t : ParserState} : R { s with written := .nil } t →
    R s { t with written := s.written ++ t.written }

namespace ParserState.Invariant

variable {R : ParserState → ParserState → Prop}

theorem iterate (hR : Invariant R) {test : Ahead → Bool} {step : ParserState → ParserState}
    (hstep : ∀ s, R s (step s)) (n : Nat) (s : ParserState) :
    R s (ParserState.iterate test step n s) := by
  induction n generalizing s with
  | zero => exact hR.refl s
  | succ n ih =>
      simp only [ParserState.iterate]
      split
      · exact hR.trans (hstep s) (ih (step s))
      · exact hR.refl s

theorem report (hR : Invariant R) (s : ParserState) (problem : Problem) :
    R s (s.report problem) := by
  simp only [ParserState.report]
  split
  · exact hR.refl s
  · exact hR.fault s _

theorem run (hR : Invariant R) {deeper : Entry → ParserState → ParserState}
    (hdeeper : ∀ entry s, R s (deeper entry s)) (rule : Rule) (s : ParserState) :
    R s (rule.run deeper s) := by
  induction rule generalizing s with
  | skip => exact hR.refl s
  | seq first second ihf ihs => exact hR.trans (ihf s) (ihs _)
  | look choice ih => exact ih s.ahead s
  | consume count => exact hR.consume s _
  | repeatWhile test body ih => exact hR.iterate ih _ s
  | frame body ih => exact hR.frame (ih _)
  | mark => exact hR.refl s
  | enclose kind => exact hR.enclose s kind
  | report problem => exact hR.report s problem
  | reportUnlessBlamed problem =>
      simp only [Rule.run]
      split
      · exact hR.refl s
      · exact hR.report s problem
  | require inOrder problem body ih =>
      simp only [Rule.run]
      split
      · exact hR.frame (ih _)
      · exact hR.trans (hR.frame (ih _)) (hR.fault _ _)
  | enter entry => exact hdeeper entry s

theorem entry (hR : Invariant R) (levels : Nat) (entry : Entry) (s : ParserState) :
    R s (entry.run levels s) := by
  induction levels generalizing entry s with
  | zero => exact hR.run (fun _ s => hR.refl s) entry.skipped s
  | succ levels ih => exact hR.run ih entry.rule s

end ParserState.Invariant

/-! ### The relations -/

namespace ParserState

/-- What was written and what is ahead make up the same symbols before and after. -/
def Conserves (s t : ParserState) : Prop :=
  t.written.leaves ++ t.ahead.map Symbol.kind = s.written.leaves ++ s.ahead.map Symbol.kind

theorem conserves_invariant : Invariant Conserves where
  refl _ := rfl
  trans hst htu := htu.trans hst
  consume s n := by
    simp only [Conserves, ParserState.consume, Forest.leaves_append, Forest.leaves_ofLeaves,
      List.append_assoc, ← List.map_append, List.take_append_drop]
  enclose s kind := by simp [Conserves, Forest.leaves]
  fault _ _ := rfl
  frame {s t} h := by
    have hin : t.written.leaves ++ t.ahead.map Symbol.kind = s.ahead.map Symbol.kind := h
    simp only [Conserves, Forest.leaves_append, List.append_assoc, hin]

theorem ahead_suffix_invariant : Invariant fun s t => t.ahead <:+ s.ahead where
  refl _ := List.suffix_refl _
  trans hst htu := htu.trans hst
  consume s n := List.drop_suffix n s.ahead
  enclose _ _ := List.suffix_refl _
  fault _ _ := List.suffix_refl _
  frame h := h

theorem faults_suffix_invariant : Invariant fun s t => s.faults <:+ t.faults where
  refl _ := List.suffix_refl _
  trans hst htu := hst.trans htu
  consume _ _ := List.suffix_refl _
  enclose _ _ := List.suffix_refl _
  fault _ _ := List.suffix_cons _ _
  frame h := h

end ParserState

@[simp] theorem ParserState.ahead_report (s : ParserState) (problem : Problem) :
    (s.report problem).ahead = s.ahead := by
  simp only [ParserState.report]
  split <;> rfl

/-! ### Loops -/

namespace ParserState

variable {test : Ahead → Bool} {step : ParserState → ParserState}

/-- A step that leaves less ahead wherever the test of a loop holds. -/
def Shrinks (test : Ahead → Bool) (step : ParserState → ParserState) : Prop :=
  ∀ s, test s.ahead → (step s).ahead.length < s.ahead.length

/-- A loop with a shrinking body ends because its test fails, never because of its bound. -/
theorem iterate_exit (hstep : Shrinks test step) (n : Nat) (s : ParserState)
    (hn : s.ahead.length ≤ n) : test (iterate test step n s).ahead = false := by
  induction n generalizing s with
  | zero =>
      cases htest : test s.ahead with
      | false => exact htest
      | true =>
          have := hstep s htest
          omega
  | succ n ih =>
      simp only [iterate]
      split
      · rename_i htest
        have := hstep s htest
        exact ih _ (by omega)
      · rename_i htest
        simpa using htest

/-- An invariant of the body of a loop holds at its end. -/
theorem iterate_induction (I : ParserState → Prop)
    (hstep : ∀ s, I s → test s.ahead → I (step s)) (n : Nat) (s : ParserState) (hs : I s) :
    I (iterate test step n s) := by
  induction n generalizing s with
  | zero => exact hs
  | succ n ih =>
      simp only [iterate]
      split
      · rename_i htest
        exact ih _ (hstep s hs htest)
      · exact hs

theorem iterate_of_not_test {s : ParserState}
    (h : test s.ahead = false) (n : Nat) : iterate test step n s = s := by
  cases n with
  | zero => rfl
  | succ n => simp [iterate, h]

/-- A loop that has ended by its test makes no use of more turns. -/
theorem iterate_add {n : Nat} {s : ParserState} (h : test (iterate test step n s).ahead = false) (m : Nat) :
    iterate test step (n + m) s = iterate test step n s := by
  induction n generalizing s with
  | zero =>
      rw [Nat.zero_add]
      cases m with
      | zero => rfl
      | succ m =>
          have hs : test s.ahead = false := h
          simp [iterate, hs]
  | succ n ih =>
      rw [Nat.add_right_comm]
      simp only [iterate] at h ⊢
      split
      · rename_i htest
        simp only [htest, if_true] at h
        exact ih h
      · rfl

end ParserState

end StructuredText
