import StructuredText.Files.Basic
import StructuredText.Glob.Pattern

/-!
The paths that a pattern stands for. They come in the order of their names, a directory before what
is in it.
-/

namespace StructuredText.Glob

variable {m : Type → Type} [Monad m]

/-- A directory could not be listed. -/
structure WalkError where
  path : String
  error : FileError
  deriving DecidableEq, Repr

namespace WalkError

def message (e : WalkError) : String :=
  s!"attempting to read `{e.path}` resulted in an error: {e.error.message}"

end WalkError

/-- The entries of a directory by name, each with its path. -/
def entries (files : Files m) (directory : String) :
    ExceptT WalkError m (List (String × String)) := do
  match ← files.list directory with
  | .error error => throw ⟨directory, error⟩
  | .ok names =>
    let sorted := names.mergeSort fun a b => a ≤ b
    return sorted.map fun name =>
      (name, if Path.isCurrent directory then name else Path.join directory name)

/-- `..` and `.` where a component stands for them. They do not count as names in a directory. -/
def specials (component : Component) : List String :=
  if component.startsWithDot then [".", ".."].reverse.filter component.fits else []

/-- The paths below a path that components stand for. Each level of directories uses up one unit of
the first argument. -/
def below (files : Files m) : Nat → List Component → String → ExceptT WalkError m (List String)
  | 0, _, _ => return []
  | _, [], path => return [path]
  | depth + 1, component :: rest, path => do
    let isDirectory := (← files.kind? path) = some .directory
    if component.isLiteral then
      let next :=
        if Path.isCurrent path then component.text else Path.join path component.text
      let special := component.text = "." || component.text = ".."
      let kind? ← files.kind? next
      if if special then isDirectory else kind?.isSome then below files depth rest next else return []
    else if isDirectory then
      let dotted ← (specials component).mapM fun name =>
        below files depth rest (Path.join path name)
      let found ← (← entries files path).mapM fun (name, child) => do
        let isDirectory := (← files.kind? child) = some .directory
        visit (below files depth) isDirectory component rest name child
      return dotted.flatten ++ found.flatten
    else return []
where
  /-- The paths that an entry of a directory gives, of which the first component is to fit it. -/
  visit (below : List Component → String → ExceptT WalkError m (List String))
      (isDirectory : Bool) (component : Component) (rest : List Component)
      (name child : String) : ExceptT WalkError m (List String) := do
    if component.isRecursive then
      let rest := rest.dropWhile Component.isRecursive
      let deeper ← if isDirectory then below (component :: rest) child else pure []
      match rest with
      | [] => return if isDirectory then child :: deeper else []
      | next :: rest =>
        let here ← if next.fits name then below rest child else pure []
        return here ++ deeper
    else if component.fits name then below rest child
    else return []

/-- No path that can be opened is longer than this. -/
def longestPath : Nat := 4096

/-- The paths that a pattern stands for. -/
def walk (files : Files m) (pattern : Pattern) : ExceptT WalkError m (List String) := do
  let paths ← below files (longestPath + pattern.components.length) pattern.components
    (if pattern.absolute then "/" else ".")
  if pattern.directoriesOnly then
    paths.filterM fun path => return (← files.kind? path) = some .directory
  else return paths

end StructuredText.Glob
