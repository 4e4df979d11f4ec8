import StructuredText.Toml.DateTime

/-!
Values that are written without quotes or brackets: truth values, numbers, dates and times.
-/

namespace StructuredText.Toml

/-- The characters that mean something of their own between values. -/
def separators : List Char :=
  ['=', ',', '[', ']', '\x7b', '\x7d', ' ', '\t', '#', '\r', '\n', '\'', '"']

/-- Whether a character can be part of such a value. All can but the separators. -/
def continuesPlain (c : Char) : Bool :=
  !separators.contains c

/-- The word in front of a text, and the text after it. Between a date and a time there may be one
blank. -/
def plainWord (cs : List Char) : List Char × List Char :=
  let word := cs.takeWhile continuesPlain
  match cs.dropWhile continuesPlain with
  | ' ' :: rest =>
    if DateTime.dropDate? word = some [] && rest.head?.any continuesPlain then
      (word ++ ' ' :: rest.takeWhile continuesPlain, rest.dropWhile continuesPlain)
    else (word, ' ' :: rest)
  | rest => (word, rest)

/-- The texts of what is no finite number. -/
def unbounded : List (List Char) :=
  ["inf".toList, "nan".toList]

/-- The value that a word stands for. -/
def plainValue? (word : List Char) : Option Value :=
  if word = "true".toList then some (.boolean true)
  else if word = "false".toList then some (.boolean false)
  else if unbounded.contains (Number.dropSign word) || DateTime.isDateTime word then some .other
  else number? word

def plain (cs : List Char) : Option (Value × List Char) :=
  let (word, rest) := plainWord cs
  (plainValue? word).map fun v => (v, rest)

end StructuredText.Toml
