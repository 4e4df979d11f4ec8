/-!
Values of the TOML format, and the rules by which the lines of a document fill its tables. Every key
is given once, and a table is opened in one place only.
-/

namespace StructuredText.Toml

abbrev Key := List Char

/-- How a table came to be. -/
inductive Origin where
  /-- Written as a value in braces; nothing can be added to it. -/
  | inline
  /-- Opened by a header. -/
  | header
  /-- Mentioned in the header of a table below it; a header may still open it. -/
  | implied
  /-- Made by keys with points; more such keys may be added to it. -/
  | dotted
  deriving DecidableEq, Repr

/-- No setting takes a number with a fraction, a date or a time, so that none of these is told from
another. Arrays of tables are not read at all. -/
inductive Value where
  | boolean (b : Bool)
  | integer (n : Int)
  | text (s : List Char)
  | other
  | array (items : List Value)
  | table (origin : Origin) (fields : List (Key × Value))

/-- The entries of a table in the order in which they were given. -/
abbrev Fields := List (Key × Value)

namespace Fields

def get? (fields : Fields) (key : Key) : Option Value :=
  List.lookup key fields

/-- Gives a key a value, in the place it has or else at the end. -/
def put : Fields → Key → Value → Fields
  | [], key, value => [(key, value)]
  | (k, v) :: fields, key, value =>
    if k = key then (k, value) :: fields else (k, v) :: put fields key value

/-- Adds a value under a key, which is one name or has points between its names. -/
def assign (value : Value) : List Key → Fields → Option Fields
  | [], _ => none
  | [key], fields =>
    match fields.get? key with
    | none => some (fields.put key value)
    | some _ => none
  | key :: keys, fields =>
    match fields.get? key with
    | none => do return fields.put key (.table .dotted (← assign value keys []))
    | some (.table .dotted inner) => do
      return fields.put key (.table .dotted (← assign value keys inner))
    | some _ => none

/-- Opens the table of a header. -/
def openTable : List Key → Fields → Option Fields
  | [], _ => none
  | [key], fields =>
    match fields.get? key with
    | none => some (fields.put key (.table .header []))
    | some (.table .implied inner) => some (fields.put key (.table .header inner))
    | some _ => none
  | key :: keys, fields =>
    match fields.get? key with
    | none => do return fields.put key (.table .implied (← openTable keys []))
    | some (.table .inline _) => none
    | some (.table origin inner) => do
      return fields.put key (.table origin (← openTable keys inner))
    | some _ => none

/-- Changes the table at a path. -/
def modifyAt (change : Fields → Option Fields) : List Key → Fields → Option Fields
  | [], fields => change fields
  | key :: keys, fields =>
    match fields.get? key with
    | some (.table origin inner) => do
      return fields.put key (.table origin (← modifyAt change keys inner))
    | _ => none

end Fields

end StructuredText.Toml
