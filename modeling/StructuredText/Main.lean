import StructuredText.Command.Help

/-!
The program itself: a run over the files of the machine.
-/

namespace StructuredText.Machine

/-- The cause of a failure, in the words of the operating system where it has some. -/
def fileError : IO.Error → FileError
  | .noFileOrDirectory .. => .notFound
  | .inappropriateType _ 20 _ => .notDirectory
  | .inappropriateType _ 21 _ => .isDirectory
  | .permissionDenied _ code details | .inappropriateType _ code details
  | .resourceExhausted _ code details | .invalidArgument _ code details =>
    .other s!"{details} (os error {code})"
  | e => .other (toString e)

/-- Does something, or tells how it failed. -/
def attempt {α : Type} (action : IO α) : IO (Except FileError α) := do
  try
    return .ok (← action)
  catch e =>
    return .error (fileError e)

/-- What is at a path. Anything that is neither a file nor a directory counts as missing. -/
def kind? (path : String) : IO (Option FileKind) := do
  try
    match (← ((← IO.currentDir) / path).metadata).type with
    | .file => return some .file
    | .dir => return some .directory
    | _ => return none
  catch _ =>
    return none

def names (path : String) : IO (List String) := do
  let entries ← ((← IO.currentDir) / path).readDir
  return entries.toList.map IO.FS.DirEntry.fileName

/-- Reads a stream to its end, after the bytes that were read before. -/
partial def readAll (stream : IO.FS.Stream) (bytes : ByteArray) : IO ByteArray := do
  let more ← stream.read 65536
  if more.isEmpty then return bytes else readAll stream (bytes ++ more)

def files : Files IO where
  workingDirectory := attempt (return (← IO.currentDir).toString)
  kind? := kind?
  read path := attempt (IO.FS.readBinFile path)
  list path := attempt (names path)
  standardInput := do
    let stdin ← IO.getStdin
    attempt (readAll stdin .empty)

/-- The packages of the program, with a log that leaves out the time. -/
def packages : Packages IO :=
  { Packages.standard files with
    log := fun e => s!" INFO {e.message} files={e.files} errors={e.errors}\n" }

end StructuredText.Machine

def main (arguments : List String) : IO UInt32 := do
  let outcome ← StructuredText.Run.ofWords StructuredText.Machine.packages
    StructuredText.Machine.files arguments
  IO.print outcome.out
  IO.eprint outcome.err
  return outcome.exit.toUInt32
