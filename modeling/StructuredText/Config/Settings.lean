import StructuredText.Report.Tree

/-!
What a user can choose about a run, and what a configuration file can say about it.
-/

namespace StructuredText

structure Settings where
  format : Format := .tree
  /-- Whether trees show blank space and comments. -/
  trivia : Bool := false
  /-- How many faults of one input are printed. -/
  maxErrors : Nat := 50
  /-- Whether faults make a run fail. -/
  denyErrors : Bool := true
  deriving DecidableEq, Repr, Inhabited

/-- What a configuration file sets about trees. -/
structure OutputSection where
  format : Option Format := none
  trivia : Option Bool := none
  deriving DecidableEq, Repr

/-- What a configuration file sets about faults. -/
structure DiagnosticSection where
  maxErrors : Option Nat := none
  denyErrors : Option Bool := none
  deriving DecidableEq, Repr

structure ConfigFile where
  output : OutputSection := {}
  diagnostics : DiagnosticSection := {}
  deriving DecidableEq, Repr

/-- What is not set in a file keeps its default. -/
def Settings.ofConfigFile (file : ConfigFile) : Settings :=
  let default : Settings := {}
  { format := file.output.format.getD default.format
    trivia := file.output.trivia.getD default.trivia
    maxErrors := file.diagnostics.maxErrors.getD default.maxErrors
    denyErrors := file.diagnostics.denyErrors.getD default.denyErrors }

end StructuredText
