import StructuredText.Command.Arguments
import StructuredText.Command.Run
import StructuredText.Config.Reader
import StructuredText.Glob.Walk

/-!
What the program says about itself, the outcome of arguments that are no command, and the packages that
the program is built with.
-/

namespace StructuredText

namespace Help

def version : String := "stparse 0.9.20"

def text : String :=
  unlines
    ["Parse IEC 61131-3 Structured Text and inspect the syntax tree",
      "",
      "Usage: stparse [OPTIONS] <COMMAND>",
      "",
      "Commands:",
      "  parse   Print the syntax tree of each input, followed by its errors",
      "  check   Report parse errors without printing trees",
      "  tokens  Print the token stream of one input",
      "  help    Print this message or the help of the given subcommand(s)",
      "",
      "Options:",
      "  -v, --verbose          Show informational log output",
      "      --config <CONFIG>  Configuration file (defaults to ./stparse.toml or ./.stparse.toml)",
      "  -h, --help             Print help",
      "  -V, --version          Print version",
      "",
      "Examples:",
      "  stparse parse src/main.st              # print the syntax tree",
      "  stparse parse 'src/**/*.st' --format sexp",
      "  stparse check 'src/**/*.st'            # report errors only",
      "  echo 'x := 1;' | stparse tokens -"]

end Help

namespace UsageError

def message : UsageError → String
  | .invalidValue => "a value is missing or not possible"
  | .unknownArgument => "unexpected argument found"
  | .invalidSubcommand => "unrecognized subcommand"
  | .tooManyValues => "unexpected value for an option that takes none"
  | .argumentConflict => "an option cannot be used multiple times"
  | .missingRequiredArgument => "required arguments were not provided"
  | .missingSubcommand => "a subcommand is required but one was not provided"
  | .displayHelp | .displayHelpOnMissingArgument => Help.text
  | .displayVersion => Help.version

/-- Asking for help or for the version is no mistake. -/
def outcome (e : UsageError) : Run.Outcome :=
  match e with
  | .displayHelp => ⟨0, Help.text, ""⟩
  | .displayVersion => ⟨0, Help.version ++ "\n", ""⟩
  | .displayHelpOnMissingArgument => ⟨2, "", Help.text⟩
  | _ => ⟨2, "", s!"error: {e.message}\n\nUsage: stparse [OPTIONS] <COMMAND>\n"⟩

end UsageError

variable {m : Type → Type} [Monad m]

/-- What is found for a pattern below the directories that can be listed. -/
def Glob.find (files : Files m) (pattern : String) :
    m (Except Causes (List (Except Causes String))) := do
  match Pattern.ofText pattern with
  | .error error => return .error [error.message]
  | .ok pattern =>
    match ← (walk files pattern).run with
    | .error error => return .ok [.error [error.message]]
    | .ok paths => return .ok (paths.map .ok)

/-- The packages of the program. Nothing is logged, since what a log writes depends on the time. -/
def Packages.standard (files : Files m) : Packages m where
  arguments words := (Invocation.ofArguments words).mapError UsageError.outcome
  config text := (ConfigFile.ofText? text).elim (.error []) .ok
  glob := Glob.find files
  log _ := ""

/-- A run of the program with arguments of any kind. -/
def Run.ofArguments (files : Files m) (arguments : List String) : m Outcome :=
  ofWords (.standard files) files arguments

end StructuredText
