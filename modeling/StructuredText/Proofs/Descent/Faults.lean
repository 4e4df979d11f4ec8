import StructuredText.Diagnostic
import StructuredText.Proofs.Token.Significant

/-!
What is reported of a text whose faults are known by the numbers of the tokens at which they lie.
-/

namespace StructuredText

/-- The report of a fault in a text of which the significant tokens and the size are given. -/
def Diagnostic.ofFault (significant : List Token) (size : Nat) (fault : Fault) : Diagnostic :=
  let start := (significant[fault.first]?).elim size Token.start
  let stop := (significant[fault.last]?).elim size Token.stop
  ⟨.grammatical, fault.problem.message, ⟨start, stop⟩⟩

/-- What is wrong with a text: first by where it starts, then its tokens before its grammar. -/
def Parse.diagnose (tokens : List Token) (size : Nat) (faults : List Fault) : List Diagnostic :=
  let lexical := (tokens.filter fun t => t.kind = .error).map .ofErrorToken
  let grammatical := faults.reverse.map (.ofFault (significant tokens) size)
  (lexical ++ grammatical).mergeSort fun a b => a.span.start ≤ b.span.start

end StructuredText
