import Mathlib.Algebra.Ring.Nat
import StructuredText.Report.Summary

/-!
Reports on lists of inputs. After some inputs, a report has written what each of them has, one after
another, and its totals are those of these inputs; one more input keeps this. So the report with trees
and the one without write the same about faults and have the same totals, however many of the faults
are printed.
-/

namespace StructuredText

theorem unlines_append (xs ys : List String) : unlines (xs ++ ys) = unlines xs ++ unlines ys := by
  rw [unlines, unlines, unlines, List.map_append, String.join_append]

/-- The number of faults of an input. -/
def Input.faults (input : Input) : Nat :=
  (Parse.ofText input.text).diagnostics.length

theorem Input.faults_pos_iff (input : Input) :
    0 < input.faults ↔ (Parse.ofText input.text).ok = false := by
  rw [faults, Parse.ok, List.length_pos_iff, ← Bool.not_eq_true, List.isEmpty_iff]

namespace Summary

/-- The totals of some inputs. -/
def ofInputs (inputs : List Input) : Summary where
  files := inputs.length
  failedFiles := inputs.countP (0 < ·.faults)
  errors := (inputs.map Input.faults).sum

theorem record_ofInputs (done : List Input) (input : Input) :
    (ofInputs done).record input.faults = ofInputs (done ++ [input]) := by
  have hfailed : (done ++ [input]).countP (0 < ·.faults) =
      if 0 < input.faults then done.countP (0 < ·.faults) + 1 else done.countP (0 < ·.faults) := by
    rw [List.countP_append, List.countP_singleton]
    simp only [decide_eq_true_eq]
    split <;> rfl
  simp [record, ofInputs, hfailed]

/-- Inputs are refused exactly if faults are denied and one of the inputs has some. -/
theorem refusal?_ofInputs_isSome (inputs : List Input) (deny : Bool) :
    ((ofInputs inputs).refusal? deny).isSome ↔
      deny ∧ ∃ input ∈ inputs, (Parse.ofText input.text).ok = false := by
  have hpos : 0 < (ofInputs inputs).errors ↔
      ∃ input ∈ inputs, (Parse.ofText input.text).ok = false := by
    rw [ofInputs, List.sum_pos_iff_exists_pos_nat]
    simp only [List.mem_map, exists_exists_and_eq_and, Input.faults_pos_iff]
  rw [← hpos, refusal?]
  split <;> simp_all

theorem line_singleLine (s : Summary) : '\n' ∉ s.line.toList := by
  have hstring (t : String) : toString t = t := rfl
  have hnumber (n : Nat) : '\n' ∉ Nat.toDigits 10 n := by
    intro h
    have := Nat.isDigit_of_mem_toDigits (by omega) (by omega) h
    cases this
  unfold line
  split <;> simp [hstring, hnumber]

end Summary

namespace Report

variable (settings : Settings) {done : List Input} {w : Written}

/-- What is said about the faults of an input. -/
def faultLines (input : Input) : List String :=
  input.errorLines (Parse.ofText input.text).diagnostics settings.maxErrors

/-- The tree of an input, under its name if this is wanted. -/
def tree (headed : Bool) (input : Input) : String :=
  (if headed then s!"==> {input.name} <==\n" else "") ++
    renderTree input (.ofText input.text) settings.format settings.trivia

/-- The trees of some inputs are written, and beside them their faults. -/
structure HasTrees (headed : Bool) (done : List Input) (w : Written) : Prop where
  out : w.out = String.join (done.map (tree settings headed))
  err : w.err = unlines (done.flatMap (faultLines settings))
  summary : w.summary = .ofInputs done

/-- The faults of some inputs are written. -/
structure HasFaults (done : List Input) (w : Written) : Prop where
  out : w.out = unlines (done.flatMap (faultLines settings))
  err : w.err = ""
  summary : w.summary = .ofInputs done

variable {settings}

theorem HasTrees.step {headed : Bool} (h : HasTrees settings headed done w) (input : Input) :
    HasTrees settings headed (done ++ [input]) (addTree settings headed w input) where
  out := by
    rw [List.map_append, String.join_append, ← h.out]
    simp [addTree, tree, String.append_assoc]
  err := by
    rw [List.flatMap_append, unlines_append, ← h.err]
    simp [addTree, faultLines]
  summary := by
    rw [← Summary.record_ofInputs, ← h.summary]
    rfl

theorem HasFaults.step (h : HasFaults settings done w) (input : Input) :
    HasFaults settings (done ++ [input]) (addFaults settings w input) where
  out := by
    rw [List.flatMap_append, unlines_append, ← h.out]
    simp [addFaults, faultLines]
  err := h.err
  summary := by
    rw [← Summary.record_ofInputs, ← h.summary]
    rfl

/-- What each input keeps holds after all of them. -/
theorem foldl_keeps {Has : List Input → Written → Prop} {add : Written → Input → Written}
    (hadd : ∀ {done w}, Has done w → ∀ input, Has (done ++ [input]) (add w input)) (h : Has done w)
    (inputs : List Input) : Has (done ++ inputs) (inputs.foldl add w) := by
  induction inputs generalizing done w with
  | nil => simpa using h
  | cons input inputs ih => simpa using ih (hadd h input)

theorem parse_hasTrees (settings : Settings) (inputs : List Input) :
    HasTrees settings (isHeaded settings inputs) inputs (parse settings inputs) := by
  have hstart : HasTrees settings (isHeaded settings inputs) [] {} := ⟨rfl, rfl, rfl⟩
  exact foldl_keeps HasTrees.step hstart inputs

theorem foldl_hasFaults (settings : Settings) (inputs : List Input) :
    HasFaults settings inputs (inputs.foldl (addFaults settings) {}) := by
  have hstart : HasFaults settings [] {} := ⟨rfl, rfl, rfl⟩
  exact foldl_keeps HasFaults.step hstart inputs

theorem check_eq (settings : Settings) (inputs : List Input) :
    check settings inputs =
      { out := unlines (inputs.flatMap (faultLines settings)) ++ (Summary.ofInputs inputs).line ++ "\n"
        summary := .ofInputs inputs } := by
  have h := foldl_hasFaults settings inputs
  simp only [check, h.out, h.err, h.summary]

/-- The lines about an input: as many of its faults as the limit allows, and a line that counts the rest
if there is one. -/
theorem faultLines_eq (settings : Settings) (input : Input) :
    ∃ errors rest, faultLines settings input = errors ++ rest ∧
      errors <+: (Parse.ofText input.text).diagnostics.map input.errorLine ∧
      errors.length = min input.faults settings.maxErrors ∧
      rest = if settings.maxErrors < input.faults then
        [s!"{input.name}: {input.faults - settings.maxErrors} more error(s) not shown"] else [] := by
  refine ⟨((Parse.ofText input.text).diagnostics.take settings.maxErrors).map input.errorLine, _, rfl,
    (List.take_prefix _ _).map _, ?_, rfl⟩
  rw [List.length_map, List.length_take, Nat.min_comm]
  rfl

/-- The report with trees and the one without agree. They have the same totals, and what the first
writes beside its trees, with the line of the totals behind it, is what the second one writes. The totals
are the number of inputs, the number of their faults, and the number of inputs with some, whatever the
settings are. Each input has a line for each fault up to the limit, and exactly if there are more, one that
counts the others. The inputs are refused exactly if faults are denied and one of them has some. -/
theorem reports_agree (settings : Settings) (inputs : List Input) :
    let summary := (parse settings inputs).summary
    (check settings inputs).summary = summary ∧
    (check settings inputs).out = (parse settings inputs).err ++ (summary.line ++ "\n") ∧
    '\n' ∉ summary.line.toList ∧ (check settings inputs).err = "" ∧
    summary.files = inputs.length ∧
    summary.errors = (inputs.map Input.faults).sum ∧
    summary.failedFiles = inputs.countP (fun input => 0 < input.faults) ∧
    (∀ other : Settings,
      (parse other inputs).summary = summary ∧ (check other inputs).summary = summary) ∧
    (parse settings inputs).err = unlines (inputs.flatMap (faultLines settings)) ∧
    (∀ input, ∃ errors rest, faultLines settings input = errors ++ rest ∧
      errors <+: (Parse.ofText input.text).diagnostics.map input.errorLine ∧
      errors.length = min input.faults settings.maxErrors ∧
      rest = if settings.maxErrors < input.faults then
        [s!"{input.name}: {input.faults - settings.maxErrors} more error(s) not shown"] else []) ∧
    ∀ deny, (summary.refusal? deny).isSome ↔
      deny ∧ ∃ input ∈ inputs, (Parse.ofText input.text).ok = false := by
  intro summary
  have htrees := parse_hasTrees settings inputs
  have hsummary : summary = .ofInputs inputs := htrees.summary
  have hother (other : Settings) :
      (parse other inputs).summary = summary ∧ (check other inputs).summary = summary := by
    rw [(parse_hasTrees other inputs).summary, check_eq, hsummary]
    exact ⟨rfl, rfl⟩
  refine ⟨(hother settings).2, ?_, summary.line_singleLine, ?_, ?_, ?_, ?_, hother, htrees.err,
    faultLines_eq settings, ?_⟩
  · rw [check_eq, htrees.err, hsummary, String.append_assoc]
  · rw [check_eq]
  · rw [hsummary, Summary.ofInputs]
  · rw [hsummary, Summary.ofInputs]
  · rw [hsummary, Summary.ofInputs]
  · rw [hsummary]
    exact Summary.refusal?_ofInputs_isSome inputs

end Report

end StructuredText
