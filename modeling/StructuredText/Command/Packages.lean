import StructuredText.Command.Invocation
import StructuredText.Config.Settings

/-!
What a run takes from packages: the reading of arguments, of configuration files and of patterns for
file names, and the log. A run is defined for whatever they answer, and what is proved of runs holds for
any of them.
-/

namespace StructuredText

/-- What a run writes, and how it ends. -/
structure Run.Outcome where
  exit : Nat
  out : String := ""
  err : String := ""
  deriving DecidableEq, Repr

/-- Something that is told to the log: that a report is finished, and its totals. -/
structure LogEvent where
  message : String
  files : Nat
  errors : Nat
  deriving DecidableEq, Repr

/-- Why a package refuses something: what it says, and what that was caused by. -/
abbrev Causes := List String

/-- The answers of the packages. -/
structure Packages (m : Type → Type) where
  /-- What the arguments of a command line ask for. If they are no command, or ask for help, the
  package answers the user itself. -/
  arguments : List String → Except Run.Outcome Invocation
  /-- What the text of a configuration file sets. -/
  config : List Char → Except Causes ConfigFile
  /-- What is found for a pattern, one by one: paths, and what could not be looked at. -/
  glob : String → m (Except Causes (List (Except Causes String)))
  /-- The lines that the log writes about an event. -/
  log : LogEvent → String

end StructuredText
