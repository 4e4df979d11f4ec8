import StructuredText.Text.Printable
import StructuredText.Text.GraphemeExtend

/-!
Texts between double quotes, on one line. What could not be seen or would not stay in its place is
written as an escape: the quote itself, the backslash, line breaks and tabs by a letter, and all
other characters that do not print by their code point.
-/

namespace StructuredText.Quoted

/-- The escape by code point, in hexadecimal digits. -/
def codePoint (c : Char) : List Char :=
  ['\\', 'u', '\x7b'] ++ Nat.toDigits 16 c.toNat ++ ['\x7d']

def escape (c : Char) : List Char :=
  match c with
  | '\x00' => ['\\', '0']
  | '\t' => ['\\', 't']
  | '\r' => ['\\', 'r']
  | '\n' => ['\\', 'n']
  | '"' => ['\\', '"']
  | '\\' => ['\\', '\\']
  | _ =>
    if GraphemeExtend.extendsGrapheme c || !Printable.isPrintable c then codePoint c else [c]

def quote (cs : List Char) : List Char :=
  '"' :: cs.flatMap escape ++ ['"']

end StructuredText.Quoted
