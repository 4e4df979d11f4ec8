import StructuredText.Command.Invocation

/-!
The arguments of the command line. Options may stand before the name of a command and, the general
ones, after it too; a name may be shortened as long as it stays clear. The value of an option that is
given as an argument of its own is looked at only when the next option or input is reached, so of
several mistakes the one that shows first is reported.
-/

namespace StructuredText

/-- Why arguments are not a command, or need none. -/
inductive UsageError where
  | invalidValue
  | unknownArgument
  | invalidSubcommand
  | tooManyValues
  | argumentConflict
  | missingRequiredArgument
  | missingSubcommand
  | displayHelp
  | displayHelpOnMissingArgument
  | displayVersion
  deriving DecidableEq, Repr

inductive CommandName where
  | parse
  | check
  | tokens
  deriving DecidableEq, Repr

/-- How many inputs a command takes at most. -/
def CommandName.capacity? : CommandName → Option Nat
  | .tokens => some 1
  | .parse | .check => none

namespace Arguments

/-! ### Options -/

inductive Choice where
  | verbose
  | config
  | format
  | trivia
  | help
  | version
  deriving DecidableEq, Repr

namespace Choice

def long : Choice → String
  | .verbose => "verbose"
  | .config => "config"
  | .format => "format"
  | .trivia => "trivia"
  | .help => "help"
  | .version => "version"

def short? : Choice → Option Char
  | .verbose => some 'v'
  | .help => some 'h'
  | .version => some 'V'
  | _ => none

def takesValue : Choice → Bool
  | .config | .format => true
  | _ => false

/-- The options before the name of a command. -/
def general : List Choice :=
  [.verbose, .config, .help, .version]

/-- The options after the name of a command. -/
def ofCommand : CommandName → List Choice
  | .parse => [.verbose, .config, .help, .format, .trivia]
  | .check | .tokens => [.verbose, .config, .help]

end Choice

/-- The options that were given. -/
structure Given where
  verbose : Bool := false
  config : Option String := none
  format : Option Format := none
  trivia : Bool := false
  deriving DecidableEq, Repr

namespace Given

/-- Takes in an option without a value; each may be given once. -/
def flag (g : Given) : Choice → Except UsageError Given
  | .verbose => if g.verbose then .error .argumentConflict else .ok { g with verbose := true }
  | .trivia => if g.trivia then .error .argumentConflict else .ok { g with trivia := true }
  | .help => .error .displayHelp
  | .version => .error .displayVersion
  | .config | .format => .error .invalidValue

/-- Takes in an option with its value, which may have been left out. -/
def option (g : Given) (choice : Choice) (value : Option String) : Except UsageError Given :=
  match choice, value with
  | .config, some path =>
    if g.config.isSome then .error .argumentConflict
    else if path.isEmpty then .error .invalidValue
    else .ok { g with config := some path }
  | .format, some name =>
    if g.format.isSome then .error .argumentConflict
    else
      match Format.ofName? name with
      | some format => .ok { g with format := some format }
      | none => .error .invalidValue
  | _, _ => .error .invalidValue

def isEmpty (g : Given) : Bool :=
  g = {}

end Given

/-! ### Reading one level -/

/-- What has been read of the arguments of one level. -/
structure Progress where
  given : Given := {}
  /-- An option whose value is still to be looked at; the value may be still to come. -/
  pending : Option (Choice × Option String) := none
  /-- Whether `--` has been met, after which nothing is an option. -/
  trailing : Bool := false
  /-- The arguments that are no options. -/
  words : List String := []

namespace Progress

/-- Looks at the value that was put off. -/
def settle (p : Progress) : Except UsageError Progress :=
  match p.pending with
  | none => .ok p
  | some (choice, value) => do
    return { p with given := ← p.given.option choice value, pending := none }

def flag (p : Progress) (choice : Choice) : Except UsageError Progress := do
  let p ← p.settle
  return { p with given := ← p.given.flag choice }

/-- An option with two dashes, of which the name and the value behind `=` are given. -/
def longOption (choices : List Choice) (p : Progress) (name : String) (value : Option String) :
    Except UsageError Progress :=
  match choices.find? fun choice => choice.long = name with
  | none => .error .unknownArgument
  | some choice =>
    if choice.takesValue then do
      let p ← p.settle
      match value with
      | some _ => return { p with given := ← p.given.option choice value }
      | none => return { p with pending := some (choice, none) }
    else if value.isSome then .error .tooManyValues
    else p.flag choice

/-- Options with one dash, one for each letter. None of them takes a value. -/
def shortOptions (choices : List Choice) (p : Progress) (letters : List Char) :
    Except UsageError Progress :=
  letters.foldlM (fun p letter =>
    match choices.find? fun choice => choice.short? = some letter with
    | some choice => p.flag choice
    | none => .error .unknownArgument) p

/-- The name of an option and its value, divided by the first `=`. -/
def divide (cs : List Char) : String × Option String :=
  let name := String.ofList (cs.takeWhile (· ≠ '='))
  match cs.dropWhile (· ≠ '=') with
  | [] => (name, none)
  | _ :: value => (name, some (String.ofList value))

/-- Takes in an argument if it is an option, the value of one, or `--`; otherwise it is a word, and
there is no answer. -/
def step? (choices : List Choice) (p : Progress) (argument : String) :
    Option (Except UsageError Progress) :=
  if p.trailing then none
  else
    match argument.toList with
    | ['-', '-'] => some (.ok { p with trailing := true })
    | '-' :: '-' :: rest =>
      let (name, value) := divide rest
      some (p.longOption choices name value)
    | '-' :: letter :: letters => some (p.shortOptions choices (letter :: letters))
    | _ =>
      match p.pending with
      | some (choice, none) => some (.ok { p with pending := some (choice, some argument) })
      | _ => none

end Progress

/-! ### Commands -/

/-- The arguments after the name of a command. -/
def afterName (command : CommandName) : Progress → List String → Except UsageError Progress
  | p, [] => do
    let p ← p.settle
    if p.words.isEmpty then .error .missingRequiredArgument else return p
  | p, argument :: rest =>
    match p.step? (Choice.ofCommand command) argument with
    | some result => do afterName command (← result) rest
    | none =>
      if command.capacity?.any (· ≤ p.words.length) then .error .unknownArgument
      else do
        let p ← p.settle
        afterName command { p with words := p.words ++ [argument] } rest

/-- The words that stand in the place of a command. -/
inductive Name where
  | command (name : CommandName)
  | help
  deriving DecidableEq, Repr

def names : List (String × Name) :=
  [("parse", .command .parse), ("check", .command .check), ("tokens", .command .tokens),
    ("help", .help)]

/-- The one name that a word begins. -/
def name? (word : String) : Option Name :=
  match names.filter fun (name, _) => word.toList.isPrefixOf name.toList with
  | [(_, name)] => some name
  | _ => none

/-- Help is given about the program, or about what is named in full behind it. -/
def helpAbout (words : List String) : UsageError :=
  match words with
  | [] => .displayHelp
  | [word] => if names.any fun (name, _) => name = word then .displayHelp else .invalidSubcommand
  | _ => .invalidSubcommand

/-- The command and the options of both levels. What is given after the name has precedence. -/
def invocation (command : CommandName) (before after : Progress) : Invocation where
  command :=
    match command with
    | .parse => .parse after.words after.given.format after.given.trivia
    | .check => .check after.words
    | .tokens => .tokens (after.words.head?.getD "")
  verbose := before.given.verbose || after.given.verbose
  config := after.given.config.or before.given.config

/-- The arguments from the first one on. -/
def fromStart : Progress → List String → Except UsageError Invocation
  | p, [] => do
    let p ← p.settle
    .error (if p.given.isEmpty then .displayHelpOnMissingArgument else .missingSubcommand)
  | p, argument :: rest =>
    match p.step? Choice.general argument with
    | some result => do fromStart (← result) rest
    | none =>
      match name? argument with
      | none => .error .invalidSubcommand
      | some name =>
        if p.trailing then .error .unknownArgument
        else
          match name with
          | .help => .error (helpAbout rest)
          | .command command => do
            let after ← afterName command {} rest
            return invocation command (← p.settle) after

end Arguments

/-- Reads the arguments of a command line. -/
def Invocation.ofArguments (arguments : List String) : Except UsageError Invocation :=
  Arguments.fromStart {} arguments

end StructuredText
