/-!
JSON documents and their layout on lines of their own, two blanks for each level. The keys of an
object stand in the order in which they are given.
-/

namespace StructuredText

inductive Json where
  | number (n : Nat)
  | string (s : List Char)
  | array (items : List Json)
  | object (fields : List (String × Json))

namespace Json

/-- Only what has to be escaped is: the quote, the backslash and control characters. -/
def escape (c : Char) : List Char :=
  match c with
  | '"' => ['\\', '"']
  | '\\' => ['\\', '\\']
  | '\x08' => ['\\', 'b']
  | '\x0c' => ['\\', 'f']
  | '\n' => ['\\', 'n']
  | '\r' => ['\\', 'r']
  | '\t' => ['\\', 't']
  | _ =>
    if c.toNat < 0x20 then
      ['\\', 'u', '0', '0', Nat.digitChar (c.toNat / 16), Nat.digitChar (c.toNat % 16)]
    else [c]

def quote (cs : List Char) : String :=
  String.ofList ('"' :: cs.flatMap escape ++ ['"'])

/-- The start of a line at a depth. -/
def newLine (depth : Nat) : String :=
  "\n".pushn ' ' (2 * depth)

/-- The items between two brackets, each on a line of its own. -/
def enclosed (opening closing : String) (depth : Nat) (items : List String) : String :=
  if items.isEmpty then opening ++ closing
  else
    let line := newLine (depth + 1)
    opening ++ line ++ ("," ++ line).intercalate items ++ newLine depth ++ closing

mutual

def pretty (depth : Nat) : Json → String
  | .number n => toString n
  | .string s => quote s
  | .array items => enclosed "[" "]" depth (prettyItems (depth + 1) items)
  | .object fields => enclosed "\x7b" "\x7d" depth (prettyFields (depth + 1) fields)

def prettyItems (depth : Nat) : List Json → List String
  | [] => []
  | item :: items => item.pretty depth :: prettyItems depth items

def prettyFields (depth : Nat) : List (String × Json) → List String
  | [] => []
  | (name, value) :: fields =>
    (quote name.toList ++ ": " ++ value.pretty depth) :: prettyFields depth fields

end

/-- The document as text. -/
def render (j : Json) : String :=
  j.pretty 0

end Json

end StructuredText
