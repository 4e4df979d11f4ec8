import StructuredText.Parse
import StructuredText.Text.Position

/-!
Texts with a name, and what is said about the faults of one.
-/

namespace StructuredText

structure Input where
  name : String
  text : List Char
  deriving DecidableEq, Repr

namespace Input

def position (input : Input) (offset : Nat) : Position :=
  .ofOffset input.text offset

/-- A fault in the form `name:line:column: message`. -/
def errorLine (input : Input) (d : Diagnostic) : String :=
  let p := input.position d.span.start
  s!"{input.name}:{p.line}:{p.column}: {d.message}"

/-- The faults up to a number of them, and a line that counts the rest. -/
def errorLines (input : Input) (diagnostics : List Diagnostic) (limit : Nat) : List String :=
  (diagnostics.take limit).map input.errorLine ++
    if diagnostics.length > limit then
      [s!"{input.name}: {diagnostics.length - limit} more error(s) not shown"]
    else []

end Input

end StructuredText
