import StructuredText.Toml.Plain
import StructuredText.Toml.Scalar

/-!
Reading a TOML document. The numbers that the readers take bound how long they go on; the length of
the text is always enough.
-/

namespace StructuredText.Toml

/-- How deeply values may be nested, and how many names a key may have. -/
def depthLimit : Nat := 80

mutual

/-- A value of any kind, in which arrays and tables may still be nested to a number of levels. -/
def value : Nat → (levels : Nat) → List Char → Option (Value × List Char)
  | 0, _, _ => none
  | n + 1, levels, cs =>
    match cs, levels with
    | '[' :: _, 0 | '\x7b' :: _, 0 => none
    | '[' :: rest, levels + 1 => do
      let (items, rest) ← arrayItems n levels rest
      return (.array items, rest)
    | '\x7b' :: rest, levels + 1 => do
      let (fields, rest) ← inlineFields n levels [] rest
      return (.table .inline fields, rest)
    | '"' :: _, _ | '\'' :: _, _ => do
      let (s, rest) ← string cs
      return (.text s, rest)
    | _, _ => plain cs

/-- The items of an array from behind its bracket on. -/
def arrayItems : Nat → (levels : Nat) → List Char → Option (List Value × List Char)
  | 0, _, _ => none
  | n + 1, levels, cs =>
    match dropGap false cs with
    | ']' :: rest => some ([], rest)
    | cs => do
      let (item, rest) ← value n levels cs
      match dropGap false rest with
      | ',' :: rest => do
        let (items, rest) ← arrayItems n levels rest
        return (item :: items, rest)
      | ']' :: rest => return ([item], rest)
      | _ => none

/-- The entries of a table in braces from behind the brace on, added to those before them. -/
def inlineFields : Nat → (levels : Nat) → Fields → List Char → Option (Fields × List Char)
  | 0, _, _, _ => none
  | n + 1, levels, fields, cs =>
    match dropGap false cs with
    | '\x7d' :: rest => some (fields, rest)
    | cs => do
      let ((keys, v), rest) ← entry n levels (dropGap false) cs
      let fields ← fields.assign v keys
      match dropGap false rest with
      | ',' :: rest => inlineFields n levels fields rest
      | '\x7d' :: rest => return (fields, rest)
      | _ => none

/-- A key, `=` and a value, with what is skipped on both sides of the sign. -/
def entry : Nat → (levels : Nat) → (skip : List Char → List Char) → List Char →
    Option ((List Key × Value) × List Char)
  | 0, _, _, _ => none
  | n + 1, levels, skip, cs => do
    let (keys, rest) ← dottedKey depthLimit cs
    match skip rest with
    | '=' :: rest => do
      let (v, rest) ← value n levels (skip rest)
      return ((keys, v), rest)
    | _ => none

end

/-- The path in a header from behind its bracket on. -/
def header (cs : List Char) : Option (List Key × List Char) := do
  let (keys, rest) ← dottedKey depthLimit cs
  match rest with
  | ']' :: rest => return (keys, rest)
  | _ => none

/-- What a document has given so far: its tables, and the path of the one that is open. -/
structure Draft where
  root : Fields
  path : List Key

/-- Adds an entry to the open table. -/
def Draft.add (d : Draft) (cs : List Char) : Option (Draft × List Char) := do
  let ((keys, v), rest) ← entry (cs.length + 1) depthLimit dropBlanks cs
  let root ← d.root.modifyAt (Fields.assign v keys) d.path
  return ({ d with root }, rest)

/-- Opens the table of a header. -/
def Draft.openTable (d : Draft) (cs : List Char) : Option (Draft × List Char) := do
  let (keys, rest) ← header cs
  return (⟨← d.root.openTable keys, keys⟩, rest)

/-- The lines of a document, added to those before them. -/
def lines : Nat → Draft → List Char → Option Fields
  | 0, _, _ => none
  | n + 1, d, cs =>
    match dropGap false cs with
    | [] => some d.root
    | '[' :: rest => do
      let (d, rest) ← d.openTable rest
      lines n d (← endLine? rest)
    | cs => do
      let (d, rest) ← d.add cs
      lines n d (← endLine? rest)

/-- The tables of a document. A byte order mark before it does not count. -/
def document? (cs : List Char) : Option Fields :=
  let cs := if cs.head? = some '\ufeff' then cs.drop 1 else cs
  lines (cs.length + 1) ⟨[], []⟩ cs

end StructuredText.Toml
