import StructuredText.Command.Packages
import StructuredText.Files.Basic
import StructuredText.Report.Summary

/-!
A run of the program: settings, inputs, and then the report. Nothing is printed before all inputs have
been read, and the first thing that goes wrong is the only one reported.
-/

namespace StructuredText

variable {m : Type → Type} [Monad m]

/-- Why a run ends before it prints anything. -/
inductive RunError where
  | unresolvedDirectory (error : FileError)
  | unreadableConfig (path : String) (error : FileError)
  | invalidConfig (path : String) (causes : Causes)
  | unreadableInput (path : String) (error : FileError)
  | unreadableStandardInput (error : FileError)
  | repeatedStandardInput
  | invalidPattern (pattern : String) (causes : Causes)
  | failedExpansion (pattern : String) (causes : Causes)
  | noMatch (pattern : String)
  deriving DecidableEq, Repr

namespace RunError

/-- What could not be done, and then what that was caused by. -/
def chain : RunError → List String
  | .unresolvedDirectory error => ["failed to resolve current directory", error.message]
  | .unreadableConfig path error => [s!"failed to read config {path}", error.message]
  | .invalidConfig path causes => s!"invalid config {path}" :: causes
  | .unreadableInput path error => [s!"failed to read {path}", error.message]
  | .unreadableStandardInput error => ["failed to read standard input", error.message]
  | .repeatedStandardInput => ["standard input given more than once"]
  | .invalidPattern pattern causes => s!"invalid glob pattern {pattern}" :: causes
  | .failedExpansion pattern causes => s!"failed to expand {pattern}" :: causes
  | .noMatch pattern => [s!"no files match {pattern}"]

def message (e : RunError) : String :=
  ": ".intercalate e.chain

end RunError

namespace Run

/-! ### Settings -/

/-- The names of configuration files that are looked for. -/
def configNames : List String :=
  ["stparse.toml", ".stparse.toml"]

/-- The configuration file: the one that is given, or else the first that is there in a directory. -/
def configPath? (files : Files m) (directory : String) (given : Option String) : m (Option String) :=
  match given with
  | some path => return some path
  | none =>
    (configNames.map (Path.join directory)).findM? fun path =>
      return (← files.kind? path) = some .file

def settings (packages : Packages m) (files : Files m) (given : Option String) :
    ExceptT RunError m Settings := do
  match ← files.workingDirectory with
  | .error error => throw (.unresolvedDirectory error)
  | .ok directory =>
    match ← (configPath? files directory given : m (Option String)) with
    | none => return {}
    | some path =>
      match (← files.read path) >>= decode with
      | .error error => throw (.unreadableConfig path error)
      | .ok text =>
        match packages.config text with
        | .error causes => throw (.invalidConfig path causes)
        | .ok file => return .ofConfigFile file

/-! ### Inputs -/

def standardInputName : String := "<stdin>"

def readStandardInput (files : Files m) : ExceptT RunError m Input := do
  match (← files.standardInput) >>= decode with
  | .error error => throw (.unreadableStandardInput error)
  | .ok text => return ⟨standardInputName, text⟩

def readInput (files : Files m) (path : String) : ExceptT RunError m Input := do
  match (← files.read path) >>= decode with
  | .error error => throw (.unreadableInput path error)
  | .ok text => return ⟨path, text⟩

/-- Whether an argument is a pattern, and no path. -/
def isPattern (argument : String) : Bool :=
  argument.toList.any fun c => c = '*' || c = '?' || c = '['

/-- The files among what was found for a pattern, up to the first that could not be looked at. -/
def filesAmong (files : Files m) (pattern : String) :
    List (Except Causes String) → ExceptT RunError m (List String)
  | [] => return []
  | .error causes :: _ => throw (.failedExpansion pattern causes)
  | .ok path :: found => do
    let isFile := (← files.kind? path) = some .file
    let others ← filesAmong files pattern found
    return if isFile then path :: others else others

/-- The files that an argument stands for: itself, or what is found for the pattern that it is. -/
def expand (packages : Packages m) (files : Files m) (argument : String) :
    ExceptT RunError m (List String) := do
  if isPattern argument then
    match ← packages.glob argument with
    | .error causes => throw (.invalidPattern argument causes)
    | .ok found =>
      let paths ← filesAmong files argument found
      if paths.isEmpty then throw (.noMatch argument) else return paths
  else return [argument]

/-- The inputs in the order of the arguments. `-` is standard input, which can be read once; the
flag tells whether it has been. -/
def inputs (packages : Packages m) (files : Files m) :
    (seen : Bool) → List String → ExceptT RunError m (List Input)
  | _, [] => return []
  | seen, argument :: rest => do
    if argument = "-" then
      if seen then throw .repeatedStandardInput
      else
        let input ← readStandardInput files
        return input :: (← inputs packages files true rest)
    else
      let found ← (← expand packages files argument).mapM (readInput files)
      return found ++ (← inputs packages files seen rest)

/-- The input of a command that takes one, for which no pattern is expanded. -/
def singleInput (files : Files m) (argument : String) : ExceptT RunError m Input :=
  if argument = "-" then readStandardInput files else readInput files argument

/-! ### The whole run -/

namespace Outcome

def errorLine (message : String) : String :=
  s!"Error: {message}\n"

/-- A run that ended before its report. -/
def failed (error : RunError) : Outcome :=
  ⟨1, "", errorLine error.message⟩

/-- A run with a report, which fails if faults are denied and there are some. -/
def reported (settings : Settings) (written : Report.Written) : Outcome :=
  match written.summary.refusal? settings.denyErrors with
  | none => ⟨0, written.out, written.err⟩
  | some refusal => ⟨1, written.out, written.err ++ errorLine refusal⟩

end Outcome

/-- A report with what the log says about it, if anything is to be logged. -/
def logged (packages : Packages m) (verbose : Bool) (message : String) (w : Report.Written) :
    Report.Written :=
  if verbose then { w with err := w.err ++ packages.log ⟨message, w.summary.files, w.summary.errors⟩ }
  else w

def execute (packages : Packages m) (files : Files m) (invocation : Invocation) :
    ExceptT RunError m Outcome := do
  let settings ← settings packages files invocation.config
  match invocation.command with
  | .parse arguments format trivia =>
    let settings := { settings with
      format := format.getD settings.format
      trivia := settings.trivia || trivia }
    let written := Report.parse settings (← inputs packages files false arguments)
    return .reported settings (logged packages invocation.verbose "parse finished" written)
  | .check arguments =>
    let written := Report.check settings (← inputs packages files false arguments)
    return .reported settings (logged packages invocation.verbose "check finished" written)
  | .tokens argument =>
    return ⟨0, Report.renderTokens (← singleInput files argument).text, ""⟩

/-- Does what is asked for. -/
def run (packages : Packages m) (files : Files m) (invocation : Invocation) : m Outcome := do
  match ← (execute packages files invocation).run with
  | .ok outcome => return outcome
  | .error error => return .failed error

/-- A run with arguments of any kind. -/
def ofWords (packages : Packages m) (files : Files m) (words : List String) : m Outcome :=
  match packages.arguments words with
  | .ok invocation => run packages files invocation
  | .error outcome => return outcome

end Run

end StructuredText
