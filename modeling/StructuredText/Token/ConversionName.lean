/-!
Names of type conversions, such as `REAL_TO_INT`: two words of capital letters with `_TO_`
between them.
-/

namespace StructuredText.ConversionName

/-- The texts before and after the first `_TO_`. -/
def split? : List Char → Option (List Char × List Char)
  | '_' :: 'T' :: 'O' :: '_' :: cs => some ([], cs)
  | c :: cs => (split? cs).map fun (before, after) => (c :: before, after)
  | [] => none

/-- Whether a text is a word of capital letters. -/
def isCapitals (cs : List Char) : Bool :=
  !cs.isEmpty && cs.all Char.isUpper

def isConversion (cs : List Char) : Bool :=
  (split? cs).any fun (before, after) => isCapitals before && isCapitals after

end StructuredText.ConversionName
