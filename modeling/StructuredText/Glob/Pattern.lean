/-!
Patterns for the names of files: `?` stands for one character, `*` for any number of them, brackets
for one character of a class, and `**` for any number of directories.
-/

namespace StructuredText.Glob

/-- One character or a range of them in brackets. -/
inductive Member where
  | single (c : Char)
  | range (low high : Char)
  deriving DecidableEq, Repr

namespace Member

def has (c : Char) : Member → Bool
  | .single d => c = d
  | .range low high => low ≤ c && c ≤ high

/-- What stands between brackets. A dash with a character on both sides makes a range. -/
def ofChars : List Char → List Member
  | low :: '-' :: high :: cs => .range low high :: ofChars cs
  | c :: cs => .single c :: ofChars cs
  | [] => []

end Member

inductive Item where
  | literal (c : Char)
  | anyChar
  | anySequence
  | anyDirectories
  | oneOf (members : List Member)
  | noneOf (members : List Member)
  deriving DecidableEq, Repr

/-! ### Reading patterns -/

inductive PatternProblem where
  | wildcards
  | recursiveWildcards
  | range
  deriving DecidableEq, Repr

/-- What is wrong with a pattern, and before which character. -/
structure PatternError where
  position : Nat
  problem : PatternProblem
  deriving DecidableEq, Repr

namespace PatternError

def message (e : PatternError) : String :=
  let reason := match e.problem with
    | .wildcards => "wildcards are either regular `*` or recursive `**`"
    | .recursiveWildcards => "recursive wildcards must form a single path component"
    | .range => "invalid range pattern"
  s!"Pattern syntax error near position {e.position}: {reason}"

end PatternError

/-- The text of a class, from behind its bracket on, and what follows the class. The first character
of a class can be a bracket itself. -/
def classText? : List Char → Option (List Char × List Char)
  | [] => none
  | first :: cs =>
    match cs.dropWhile (· ≠ ']') with
    | _ :: rest => some (first :: cs.takeWhile (· ≠ ']'), rest)
    | [] => none

/-- A class in brackets from behind the opening one on. -/
def classItem? : List Char → Option (Item × List Char)
  | '!' :: cs => (classText? cs).map fun (text, rest) => (.noneOf (Member.ofChars text), rest)
  | cs => (classText? cs).map fun (text, rest) => (.oneOf (Member.ofChars text), rest)

/-- What stars stand for: how many there are, whether a path component starts with them, and what
follows them. A separator behind `**` belongs to it. -/
def stars (position count : Nat) (startsComponent : Bool) (rest : List Char) :
    Except PatternError (Item × List Char) :=
  if count = 1 then .ok (.anySequence, rest)
  else if count > 2 then .error ⟨position + 2, .wildcards⟩
  else if !startsComponent then .error ⟨position - 1, .recursiveWildcards⟩
  else
    match rest with
    | [] => .ok (.anyDirectories, [])
    | '/' :: rest => .ok (.anyDirectories, rest)
    | _ => .error ⟨position + 2, .recursiveWildcards⟩

/-- The next item of a pattern, and the text after it. -/
def item (position : Nat) (startsComponent : Bool) (c : Char) (cs : List Char) :
    Except PatternError (Item × List Char) :=
  match c with
  | '?' => .ok (.anyChar, cs)
  | '*' =>
    stars position ((cs.takeWhile (· = '*')).length + 1) startsComponent (cs.dropWhile (· = '*'))
  | '[' =>
    match classItem? cs with
    | some result => .ok result
    | none => .error ⟨position, .range⟩
  | _ => .ok (.literal c, cs)

/-- The items of a pattern from a position on. There are at most as many as the number says. -/
def itemsFrom : Nat → (position : Nat) → (startsComponent : Bool) → List Char →
    Except PatternError (List Item)
  | _, _, _, [] => .ok []
  | 0, _, _, _ :: _ => .ok []
  | n + 1, position, startsComponent, c :: cs => do
    let (first, rest) ← item position startsComponent c cs
    let read := (c :: cs).take (cs.length + 1 - rest.length)
    let others ← itemsFrom n (position + read.length) (read.getLast? = some '/') rest
    return first :: others

def items (cs : List Char) : Except PatternError (List Item) :=
  itemsFrom cs.length 0 true cs

/-! ### Matching names -/

/-- Whether an item that stands for one character stands for this one. -/
def Item.takes (c : Char) : Item → Bool
  | .literal d => c = d
  | .anyChar => true
  | .oneOf members => members.any (Member.has c)
  | .noneOf members => !members.any (Member.has c)
  | .anySequence | .anyDirectories => false

/-- Whether what is left of a text after some of its characters passes a test. -/
def anyRest (test : List Char → Bool) : List Char → Bool
  | [] => test []
  | c :: cs => test (c :: cs) || anyRest test cs

/-- Whether the items stand for the name of a file. -/
def isMatch : List Item → List Char → Bool
  | [], cs => cs.isEmpty
  | .anySequence :: items, cs => anyRest (isMatch items) cs
  | .anyDirectories :: items, cs => anyRest (isMatch items) cs
  | item :: items, c :: cs => item.takes c && isMatch items cs
  | _ :: _, [] => false

/-! ### Path components -/

/-- A pattern for one component of a path. -/
structure Component where
  text : String
  items : List Item
  deriving DecidableEq, Repr

namespace Component

/-- Whether the component is a plain name. -/
def isLiteral (c : Component) : Bool :=
  c.items.all fun
    | .literal _ => true
    | _ => false

/-- Whether the component stands for any number of directories. -/
def isRecursive (c : Component) : Bool :=
  c.items.contains .anyDirectories

/-- Whether the component starts with a point, as it has to for `.` and `..`. -/
def startsWithDot (c : Component) : Bool :=
  c.items.head? = some (.literal '.')

def fits (c : Component) (name : String) : Bool :=
  isMatch c.items name.toList

end Component

/-- A pattern: where it starts, and its components. -/
structure Pattern where
  absolute : Bool
  components : List Component
  /-- Whether the pattern ends with a separator. -/
  directoriesOnly : Bool
  deriving DecidableEq, Repr

namespace Pattern

/-- The components of a path. A separator at the end starts no other one. -/
def split (cs : List Char) : List (List Char) :=
  let parts := cs.splitOn '/'
  if parts.getLast? = some [] then parts.dropLast else parts

def ofText (text : String) : Except PatternError Pattern := do
  let cs := text.toList
  let _ ← items cs
  let absolute := cs.head? = some '/'
  let components ← (split (if absolute then cs.drop 1 else cs)).mapM fun part => do
    return { text := String.ofList part, items := ← items part : Component }
  return { absolute, components, directoriesOnly := cs.getLast? = some '/' }

end Pattern

end StructuredText.Glob
