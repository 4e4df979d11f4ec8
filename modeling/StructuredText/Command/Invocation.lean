import StructuredText.Report.Tree

/-!
What a run is asked to do.
-/

namespace StructuredText

/-- What is to be done. -/
inductive Command where
  | parse (inputs : List String) (format : Option Format) (trivia : Bool)
  | check (inputs : List String)
  | tokens (input : String)
  deriving DecidableEq, Repr

structure Invocation where
  command : Command
  verbose : Bool
  config : Option String
  deriving DecidableEq, Repr

end StructuredText
