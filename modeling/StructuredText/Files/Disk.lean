import StructuredText.Files.Basic

/-!
Files that are only described: those below one directory, in which a run takes place. Outside of it
there is nothing but directories.
-/

namespace StructuredText

/-- The files and the directories of a disk, by the names on the way to them. A directory is also
there because something is in it. -/
structure Disk where
  /-- The path of the directory on the way to which no names are given. -/
  top : String
  files : List (List String × ByteArray)
  directories : List (List String)
  standardInput : ByteArray

namespace Disk

def content? (disk : Disk) (names : List String) : Option ByteArray :=
  disk.files.lookup names

def isDirectory (disk : Disk) (names : List String) : Bool :=
  names.isEmpty || disk.directories.any (names.isPrefixOf ·) ||
    disk.files.any fun (file, _) => names.isPrefixOf file && file ≠ names

/-- Where a path can lead. -/
inductive Place where
  | file (content : ByteArray)
  | directory (names : List String)
  | outside

/-- How many bytes the name of a file may have. -/
def longestName : Nat := 255

/-- From how many bytes on a path is too long. -/
def tooLongPath : Nat := 4096

/-- The place that a name leads to. -/
def enter (disk : Disk) (place : Place) (name : String) : Except FileError Place :=
  match place with
  | .file _ => .error .notDirectory
  | .outside =>
    if name = "" || name = "." || name = ".." then .ok .outside
    else if name.utf8ByteSize > longestName then .error .nameTooLong
    else .error .notFound
  | .directory names =>
    if name = "" || name = "." then .ok place
    else if name = ".." then
      .ok (if names.isEmpty then .outside else .directory names.dropLast)
    else if name.utf8ByteSize > longestName then .error .nameTooLong
    else
      let inside := names ++ [name]
      match disk.content? inside with
      | some content => .ok (.file content)
      | none => if disk.isDirectory inside then .ok (.directory inside) else .error .notFound

/-- The place of a path. -/
def find (disk : Disk) (path : String) : Except FileError Place :=
  if path.isEmpty then .error .notFound
  else if path.utf8ByteSize ≥ tooLongPath then .error .nameTooLong
  else
    let cs := path.toList
    let top := disk.top.toList
    if cs = top || (top ++ ['/']).isPrefixOf cs then walk (.directory []) (cs.drop top.length)
    else if cs.head? = some '/' then walk .outside cs
    else walk (.directory []) cs
where
  walk (start : Place) (cs : List Char) : Except FileError Place :=
    (cs.splitOn '/').foldlM (fun place name => disk.enter place (String.ofList name)) start

def kind? (disk : Disk) (path : String) : Option FileKind :=
  match disk.find path with
  | .ok (.file _) => some .file
  | .ok _ => some .directory
  | .error _ => none

def read (disk : Disk) (path : String) : Except FileError ByteArray := do
  match ← disk.find path with
  | .file content => return content
  | _ => .error .isDirectory

/-- The next name on the way from a directory to something in it. -/
def nextName? (directory : List String) (names : List String) : Option String :=
  if directory.isPrefixOf names then names[directory.length]? else none

def list (disk : Disk) (path : String) : Except FileError (List String) := do
  match ← disk.find path with
  | .file _ => .error .notDirectory
  | .outside => return []
  | .directory names =>
    return ((disk.files.map Prod.fst ++ disk.directories).filterMap (nextName? names)).eraseDups

/-- A disk as the files of a run, for which asking has no effect. -/
def toFiles (disk : Disk) : Files Id where
  workingDirectory := .ok disk.top
  kind? := disk.kind?
  read := disk.read
  list := disk.list
  standardInput := .ok disk.standardInput

end Disk

end StructuredText
