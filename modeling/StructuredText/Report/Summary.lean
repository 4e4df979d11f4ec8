import StructuredText.Config.Settings

/-!
Reports on a list of inputs: their trees and faults, or only their faults and a summary. Both go through
the inputs one by one, and add what each of them has to what is written so far.
-/

namespace StructuredText

structure Summary where
  files : Nat := 0
  failedFiles : Nat := 0
  errors : Nat := 0
  deriving DecidableEq, Repr

namespace Summary

/-- The totals with one more input, which has a number of faults. -/
def record (s : Summary) (errors : Nat) : Summary where
  files := s.files + 1
  failedFiles := if 0 < errors then s.failedFiles + 1 else s.failedFiles
  errors := s.errors + errors

/-- Why the inputs are refused, if they are. -/
def refusal? (s : Summary) (denyErrors : Bool) : Option String :=
  if denyErrors && s.errors > 0 then
    some s!"{s.errors} error(s) in {s.failedFiles} of {s.files} file(s)"
  else none

/-- The last line of a check. -/
def line (s : Summary) : String :=
  if s.errors = 0 then s!"checked {s.files} file(s): no errors"
  else s!"checked {s.files} file(s): {s.errors} error(s) in {s.failedFiles} file(s)"

end Summary

namespace Report

/-- What a report writes, and its totals. -/
structure Written where
  out : String := ""
  err : String := ""
  summary : Summary := {}
  deriving DecidableEq, Repr

/-- The tree of an input, under its name if it is not the only one, and beside it its faults. -/
def addTree (settings : Settings) (headed : Bool) (w : Written) (input : Input) : Written :=
  let p := Parse.ofText input.text
  let heading := if headed then s!"==> {input.name} <==\n" else ""
  { out := w.out ++ heading ++ renderTree input p settings.format settings.trivia
    err := w.err ++ unlines (input.errorLines p.diagnostics settings.maxErrors)
    summary := w.summary.record p.diagnostics.length }

/-- The faults of an input. -/
def addFaults (settings : Settings) (w : Written) (input : Input) : Written :=
  let p := Parse.ofText input.text
  { w with
    out := w.out ++ unlines (input.errorLines p.diagnostics settings.maxErrors)
    summary := w.summary.record p.diagnostics.length }

/-- A JSON document has the name of its input in it. -/
def isHeaded (settings : Settings) (inputs : List Input) : Bool :=
  inputs.length > 1 && settings.format ≠ .json

/-- The trees of all inputs, and beside them their faults. -/
def parse (settings : Settings) (inputs : List Input) : Written :=
  inputs.foldl (addTree settings (isHeaded settings inputs)) {}

/-- The faults of all inputs and a summary. -/
def check (settings : Settings) (inputs : List Input) : Written :=
  let w := inputs.foldl (addFaults settings) {}
  { w with out := w.out ++ w.summary.line ++ "\n" }

end Report

end StructuredText
