import StructuredText.Config.Settings
import StructuredText.Toml.Document

/-!
Reading a configuration file: a TOML document with the tables `output` and `diagnostics`. What has no
meaning makes the whole file invalid.
-/

namespace StructuredText

namespace ConfigFile

open Toml

/-! ### Values of settings -/

/-- Whether a value has nothing in it. -/
def isEmptyValue : Value → Bool
  | .array items => items.isEmpty
  | .table _ fields => fields.isEmpty
  | _ => false

/-- A format is given by its name, or by a table that has the name as its one key and nothing
under it. -/
def format? : Value → Option Format
  | .text name => Format.ofName? (String.ofList name)
  | .table _ [(name, content)] =>
    if isEmptyValue content then Format.ofName? (String.ofList name) else none
  | _ => none

def boolean? : Value → Option Bool
  | .boolean b => some b
  | _ => none

/-- A number of things, which fits a machine word. -/
def count? : Value → Option Nat
  | .integer n => if 0 ≤ n && n.toNat < UInt64.size then some n.toNat else none
  | _ => none

/-! ### Tables of settings -/

/-- What a value sets in a file, unless it is not one that can. -/
abbrev Setter := Value → ConfigFile → Option ConfigFile

/-- What can be set in a table, by key. -/
abbrev Schema := List (Key × Setter)

def outputSchema : Schema :=
  [("format".toList, fun v f => (format? v).map fun format => { f with output.format := some format }),
    ("trivia".toList, fun v f => (boolean? v).map fun trivia => { f with output.trivia := some trivia })]

def diagnosticsSchema : Schema :=
  [("max_errors".toList, fun v f => (count? v).map fun n => { f with diagnostics.maxErrors := some n }),
    ("deny_errors".toList, fun v f => (boolean? v).map fun b => { f with diagnostics.denyErrors := some b })]

/-- Takes in every entry of a table; a key that is not in the schema is refused. -/
def ofFields? (schema : Schema) (fields : Fields) (f : ConfigFile) : Option ConfigFile :=
  fields.foldlM (fun f (key, v) => do (← schema.lookup key) v f) f

/-- A section is a table, or an array with a value for each key of the schema, in its order. -/
def sectionSetter (schema : Schema) : Setter
  | .table _ fields, f => ofFields? schema fields f
  | .array items, f =>
    if items.length < schema.length then none
    else (schema.zip items).foldlM (fun f ((_, set), v) => set v f) f
  | _, _ => none

def fileSchema : Schema :=
  [("output".toList, sectionSetter outputSchema),
    ("diagnostics".toList, sectionSetter diagnosticsSchema)]

/-- What the text of a configuration file sets. -/
def ofText? (cs : List Char) : Option ConfigFile := do
  ofFields? fileSchema (← document? cs) {}

end ConfigFile

/-- The settings that the text of a configuration file gives. -/
def Settings.ofText? (cs : List Char) : Option Settings :=
  (ConfigFile.ofText? cs).map ofConfigFile

end StructuredText
