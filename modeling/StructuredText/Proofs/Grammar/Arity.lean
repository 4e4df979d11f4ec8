import StructuredText.Descent.Expressions
import StructuredText.Proofs.Grammar.Calls
import StructuredText.Proofs.Grammar.SoundExpressions

/-!
Counting the arguments of a list while they are read. The arguments of a conversion are judged by the list
that was made of them. A count that is kept along the way, of arguments whose form is seen from the symbols
ahead of each, comes to the same.
-/

namespace StructuredText.Grammar

open ParserState Rule
open Descent (Arguments)

/-- Reads an argument and the pragmas behind it, and counts it. -/
def countArgument (levels : Nat) (s : ParserState) (c : Arguments) : ParserState × Arguments :=
  ((Rule.seq argument inlinePragmas).run (Entry.run levels) s, c.add (s.ahead.paramForm = .positional))

/-- Reads further arguments, each behind a comma, but a number of them at most. -/
def countFurther (levels : Nat) : Nat → ParserState × Arguments → ParserState × Arguments
  | 0, s => s
  | n + 1, s =>
    if s.1.ahead.kind = .comma then
      countFurther levels n
        (countArgument levels ((Rule.seq advance pragmas).run (Entry.run levels) s.1) s.2)
    else s

/-- Reads arguments, unless the parenthesis is closed at once. -/
def countAll (levels : Nat) (s : ParserState) : ParserState × Arguments :=
  if s.ahead.kind = .rparen then (s, .none)
  else
    let first := countArgument levels s .none
    countFurther levels first.1.ahead.length first

/-- Reads a parenthesis and the arguments behind it. -/
def countArguments (levels : Nat) (s : ParserState) : ParserState × Arguments :=
  countAll levels ((Rule.seq advance pragmas).run (Entry.run levels) s)

variable {levels : Nat} {s : ParserState} {c : Arguments}

/-! ### Forms in what was written -/

theorem hasLeaf_iff {k : TokenKind} {row : Outline} : hasLeaf k row ↔ k ∈ row.ownLeaves := by
  induction row with
  | nil => simp [hasLeaf, Forest.ownLeaves]
  | leaf j rest ih =>
      rw [hasLeaf, Bool.or_eq_true, decide_eq_true_iff, ih, Forest.ownLeaves, List.mem_cons, eq_comm]
  | node kind c rest _ ih => simpa [hasLeaf, Forest.ownLeaves] using ih

/-- An argument is positional if it has neither of the two signs. -/
theorem isPositional_eq (row : Outline) :
    (!hasLeaf .assign row && !hasLeaf .arrow row) = decide (ParamForm.ofRow row = .positional) := by
  rw [Bool.eq_iff_iff, decide_eq_true_iff, Bool.and_eq_true, Bool.not_eq_true', Bool.not_eq_true',
    Bool.eq_false_iff, Bool.eq_false_iff, ne_eq, ne_eq, hasLeaf_iff, hasLeaf_iff, ParamForm.ofRow]
  split
  next harrow => simp [harrow]
  next harrow => split <;> simp [*]

theorem positions_eq (row : Outline) :
    positions row = row.trees.filterMap fun t =>
      if t.1 = .paramAssignment then some (decide (ParamForm.ofRow t.2 = .positional)) else none := by
  induction row with
  | nil => rfl
  | leaf k rest ih => exact ih
  | node kind c rest _ ih =>
      rw [positions, Forest.trees_node, List.filterMap_cons, ← ih, isPositional_eq]
      split <;> rfl

/-- Nothing is written that would be counted. -/
theorem uncounted_pragmas : pragmas.Adds levels fun u => positions u = [] :=
  Adds.repeatWhile (adds_node fun _ => rfl) rfl fun u v hu hv => by rw [positions_append, hu, hv]; rfl

theorem uncounted_inlinePragmas : inlinePragmas.Adds levels fun u => positions u = [] :=
  uncounted_pragmas.choose (adds_skip rfl)

theorem uncounted_advance : advance.Adds levels fun u => positions u = [] := by
  refine adds_advance fun ks => ?_
  rw [positions_eq, Forest.trees_ofLeaves]
  rfl

theorem uncounted_separator : (Rule.seq advance pragmas).Adds levels fun u => positions u = [] :=
  uncounted_advance.seq uncounted_pragmas fun u v hu hv => by rw [positions_append, hu, hv]; rfl

theorem positions_run_argument (levels : Nat) (s : ParserState) :
    positions (argument.run (Entry.run levels) s).written =
      positions s.written ++ [decide (s.ahead.paramForm = .positional)] := by
  obtain ⟨hform, -⟩ := form_argumentParts levels (s := { s with written := .nil }) rfl
  rw [argument_eq, node, Rule.run, inFrame, positions_append, ← hform, ← isPositional_eq]
  rfl

/-! ### The count -/

/-- The count is that of what was written. -/
def Counted (s : ParserState × Arguments) : Prop :=
  s.2.count = (positions s.1.written).length ∧ s.2.allPositional = (positions s.1.written).all id

theorem Counted.run {r : Rule} (h : Counted (s, c)) (hr : r.Adds levels fun u => positions u = []) :
    Counted (r.run (Entry.run levels) s, c) := by
  obtain ⟨u, hu, hnone⟩ := hr s
  rwa [Counted, hu, positions_append, hnone, List.append_nil]

theorem Counted.one (h : Counted (s, c)) : Counted (countArgument levels s c) := by
  have hcount : c.count = (positions s.written).length := h.1
  have hall : c.allPositional = (positions s.written).all id := h.2
  have hargument : Counted (argument.run (Entry.run levels) s, c.add (s.ahead.paramForm = .positional)) := by
    simp [Counted, Arguments.add, positions_run_argument, hcount, hall]
  exact hargument.run uncounted_inlinePragmas

/-- The count goes along with the loop of the grammar. -/
theorem countFurther_spec (n : Nat) (h : Counted (s, c)) :
    Counted (countFurther levels n (s, c)) ∧
      (countFurther levels n (s, c)).1 = iterate (fun a => a.kind = .comma)
        ((all [advance, pragmas, argument, inlinePragmas]).run (Entry.run levels)) n s := by
  induction n generalizing s c with
  | zero => exact ⟨h, rfl⟩
  | succ n ih =>
      rw [countFurther, iterate]
      by_cases hcomma : s.ahead.kind = .comma
      · rw [if_pos hcomma, if_pos (decide_eq_true hcomma)]
        exact ih (h.run uncounted_separator).one
      · rw [if_neg hcomma, if_neg (by simpa using hcomma)]
        exact ⟨h, rfl⟩

theorem countAll_spec (h : Counted (s, .none)) :
    Counted (countAll levels s) ∧ (countAll levels s).1 =
      (choose (fun a => a.kind = .rparen) .skip arguments).run (Entry.run levels) s := by
  rw [countAll, choose, Rule.run]
  by_cases hclosed : s.ahead.kind = .rparen
  · rw [if_pos hclosed, if_pos (decide_eq_true hclosed)]
    exact ⟨h, rfl⟩
  · rw [if_neg hclosed, if_neg (by simpa using hclosed)]
    exact countFurther_spec _ h.one

theorem eq_singleton_true_iff {l : List Bool} : l = [true] ↔ l.length = 1 ∧ l.all id := by
  constructor
  · rintro rfl
    exact ⟨rfl, rfl⟩
  · rintro ⟨hlength, hall⟩
    obtain ⟨b, rfl⟩ := List.length_eq_one_iff.mp hlength
    simpa using hall

/-- The count behind the last argument of a list. -/
theorem countArguments_spec (levels : Nat) (s : ParserState) :
    Counted (countArguments levels { s with written := .nil }) ∧
      (countArguments levels { s with written := .nil }).1 =
        (all [advance, pragmas, choose (fun a => a.kind = .rparen) .skip arguments]).run (Entry.run levels)
          { s with written := .nil } := by
  have hstart : Counted ({ s with written := .nil }, .none) := ⟨rfl, rfl⟩
  exact countAll_spec (hstart.run uncounted_separator)

/-- The arguments of a conversion are one value exactly if one argument was counted, a positional one. -/
theorem isOneValue_argumentList (levels : Nat) (s : ParserState) :
    isOneValue (argumentList.run (Entry.run levels) { s with written := .nil }).written =
      (countArguments levels { s with written := .nil }).2.isOneValue := by
  obtain ⟨hcounted, hrun⟩ := countArguments_spec levels s
  let counted := countArguments levels { s with written := .nil }
  have hclosed : Counted ((expect .rparen).run (Entry.run levels) counted.1, counted.2) :=
    hcounted.run (uncounted_advance.choose (adds_report _ rfl))
  have hwritten : (argumentList.run (Entry.run levels) { s with written := .nil }).written =
      .node .argumentList ((expect .rparen).run (Entry.run levels) counted.1).written .nil := by
    rw [show counted.1 = _ from hrun]
    rfl
  rw [hwritten, isOneValue, Arguments.isOneValue, Bool.eq_iff_iff, decide_eq_true_iff,
    eq_singleton_true_iff, Bool.and_eq_true, decide_eq_true_iff]
  exact and_congr (by rw [← hclosed.1]) (by rw [← hclosed.2])

end StructuredText.Grammar
