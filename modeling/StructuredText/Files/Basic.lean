/-!
What a run can ask about files, in any monad: the real ones, or some that are only described.
-/

namespace StructuredText

/-- Why something could not be read. -/
inductive FileError where
  | notFound
  | notDirectory
  | isDirectory
  | nameTooLong
  | notText
  | other (message : String)
  deriving DecidableEq, Repr

namespace FileError

def message : FileError → String
  | .notFound => "No such file or directory (os error 2)"
  | .notDirectory => "Not a directory (os error 20)"
  | .isDirectory => "Is a directory (os error 21)"
  | .nameTooLong => "File name too long (os error 36)"
  | .notText => "stream did not contain valid UTF-8"
  | .other message => message

end FileError

inductive FileKind where
  | file
  | directory
  deriving DecidableEq, Repr

structure Files (m : Type → Type) where
  /-- The path of the directory in which the run takes place. -/
  workingDirectory : m (Except FileError String)
  /-- What is at a path, if anything. -/
  kind? : String → m (Option FileKind)
  /-- The bytes of a file. -/
  read : String → m (Except FileError ByteArray)
  /-- The names in a directory, in any order. -/
  list : String → m (Except FileError (List String))
  /-- All of standard input. -/
  standardInput : m (Except FileError ByteArray)

namespace Path

/-- The path of something in a directory. -/
def join (directory name : String) : String :=
  if name.startsWith "/" || directory.isEmpty then name
  else if directory.endsWith "/" then directory ++ name
  else directory ++ "/" ++ name

/-- Whether a path is only `.`, however often. -/
def isCurrent (path : String) : Bool :=
  let parts := path.toList.splitOn '/'
  parts.head? = some ['.'] && parts.all fun part => part = ['.'] || part = []

end Path

/-- The text of some bytes. -/
def decode (bytes : ByteArray) : Except FileError (List Char) :=
  match String.fromUTF8? bytes with
  | some text => .ok text.toList
  | none => .error .notText

end StructuredText
