import StructuredText.Command.Help
import StructuredText.Proofs.Command.Inputs
import StructuredText.Proofs.Reports

/-!
Whole runs of the commands that report on inputs. Nothing is written before all inputs are there, so a run
ends with the first thing that fails and nothing on standard output, or with the whole report.
-/

namespace StructuredText

namespace Command

/-- The arguments that name the inputs of a report; only a list of tokens is no report. -/
def reported? : Command → Option (List String)
  | .parse arguments _ _ | .check arguments => some arguments
  | .tokens _ => none

/-- The settings that count: what the command asks for comes before what the configuration says. -/
def settings (config : Settings) : Command → Settings
  | .parse _ format trivia =>
      { config with format := format.getD config.format, trivia := config.trivia || trivia }
  | .check _ | .tokens _ => config

/-- The report on some inputs, input by input in their order. -/
def report (settings : Settings) (inputs : List Input) : Command → Report.Written
  | .parse .. =>
      { out := String.join (inputs.map (Report.tree settings (Report.isHeaded settings inputs)))
        err := unlines (inputs.flatMap (Report.faultLines settings))
        summary := .ofInputs inputs }
  | .check _ =>
      { out := unlines (inputs.flatMap (Report.faultLines settings)) ++
          (Summary.ofInputs inputs).line ++ "\n"
        summary := .ofInputs inputs }
  | .tokens _ => { summary := .ofInputs inputs }

/-- What the log is told when a report is finished. -/
def finished : Command → String
  | .parse .. => "parse finished"
  | .check _ => "check finished"
  | .tokens _ => ""

theorem report_summary (settings : Settings) (inputs : List Input) (command : Command) :
    (command.report settings inputs).summary = .ofInputs inputs := by
  cases command <;> rfl

end Command

/-- What the log writes about a report on some inputs. -/
def Invocation.logLines (packages : Packages Id) (invocation : Invocation) (inputs : List Input) :
    String :=
  if invocation.verbose then
    let s := Summary.ofInputs inputs
    packages.log ⟨invocation.command.finished, s.files, s.errors⟩
  else ""

namespace Run

/-- The inputs are refused: faults are denied, and one of the inputs has some. -/
def refuses (settings : Settings) (inputs : List Input) : Bool :=
  settings.denyErrors && inputs.any fun input => !(Parse.ofText input.text).ok

/-- What is said if inputs are refused. -/
def refusal (inputs : List Input) : String :=
  let s := Summary.ofInputs inputs
  s!"{s.errors} error(s) in {s.failedFiles} of {s.files} file(s)"

theorem refusal?_ofInputs (settings : Settings) (inputs : List Input) :
    (Summary.ofInputs inputs).refusal? settings.denyErrors =
      if refuses settings inputs then some (refusal inputs) else none := by
  have hsome : ((Summary.ofInputs inputs).refusal? settings.denyErrors).isSome ↔
      refuses settings inputs := by
    rw [Summary.refusal?_ofInputs_isSome]
    simp [refuses]
  split
  · next hrefuses =>
      rw [← hsome, Summary.refusal?] at hrefuses
      rw [Summary.refusal?]
      split
      · rfl
      · next hnot => simp [hnot] at hrefuses
  · next hrefuses => exact Option.not_isSome_iff_eq_none.mp (mt hsome.mp hrefuses)

variable {packages : Packages Id} {files : Files Id} {invocation : Invocation}
  {arguments : List String} {config : Settings}

/-- A report with what the log says about it. -/
theorem logged_report (packages : Packages Id) (invocation : Invocation) (settings : Settings)
    (inputs : List Input) :
    let written := invocation.command.report settings inputs
    logged packages invocation.verbose invocation.command.finished written =
      { written with err := written.err ++ invocation.logLines packages inputs } := by
  intro written
  have hsummary : written.summary = .ofInputs inputs := Command.report_summary _ _ _
  rw [logged, Invocation.logLines, hsummary]
  split
  · rfl
  · rw [String.append_empty, ← hsummary]

/-- Behind its settings, a run that reports gets its inputs and then writes its report. -/
theorem execute_of_configGives (hreport : invocation.command.reported? = some arguments)
    (hconfig : ConfigGives packages files invocation.config config) :
    (execute packages files invocation).run = (inputs packages files false arguments >>= fun given =>
      let settings := invocation.command.settings config
      pure (Outcome.reported settings (logged packages invocation.verbose
        invocation.command.finished (invocation.command.report settings given)))).run := by
  rw [execute, run_bind_of_ok (settings_of_gives hconfig)]
  obtain ⟨command, verbose, path?⟩ := invocation
  cases command with
  | tokens argument => cases hreport
  | parse given format trivia =>
      cases hreport
      have hparse (s : Settings) (inputs : List Input) :
          Report.parse s inputs = (Command.parse arguments format trivia).report s inputs := by
        have h := Report.parse_hasTrees s inputs
        rw [Command.report, ← h.out, ← h.err, ← h.summary]
      simp only [hparse]
      rfl
  | check given =>
      cases hreport
      simp only [Report.check_eq]
      rfl

/-- Without settings nothing is done. -/
theorem run_of_configFails {error : RunError}
    (h : ConfigFails packages files invocation.config error) :
    Id.run (run packages files invocation) = .failed error := by
  have hexecute : (execute packages files invocation).run = Except.error error :=
    run_bind_of_error (settings_of_fails h)
  rw [run, bind_id, hexecute]
  rfl

theorem run_of_firstFails {error : RunError} (hreport : invocation.command.reported? = some arguments)
    (hconfig : ConfigGives packages files invocation.config config)
    (h : FirstFails packages files arguments error) :
    Id.run (run packages files invocation) = .failed error := by
  have hexecute : (execute packages files invocation).run = Except.error error := by
    rw [execute_of_configGives hreport hconfig, run_bind_of_error (inputs_of_firstFails h)]
  rw [run, bind_id, hexecute]
  rfl

theorem run_of_givesAll {given : List Input} (hreport : invocation.command.reported? = some arguments)
    (hconfig : ConfigGives packages files invocation.config config)
    (h : GivesAll packages files [] arguments given) :
    let settings := invocation.command.settings config
    let written := invocation.command.report settings given
    let err := written.err ++ invocation.logLines packages given
    Id.run (run packages files invocation) =
      if refuses settings given then ⟨1, written.out, err ++ s!"Error: {refusal given}\n"⟩
      else ⟨0, written.out, err⟩ := by
  intro settings written err
  have hinputs : (inputs packages files false arguments).run = Except.ok given := inputs_of_givesAll h
  have hexecute : (execute packages files invocation).run =
      Except.ok (.reported settings { written with err }) := by
    rw [execute_of_configGives hreport hconfig, run_bind_of_ok hinputs]
    simp only [logged_report]
    rfl
  have hrefusal : written.summary.refusal? settings.denyErrors =
      if refuses settings given then some (refusal given) else none := by
    rw [Command.report_summary, refusal?_ofInputs]
  rw [run, bind_id, hexecute]
  show Outcome.reported settings { written with err } = _
  rw [Outcome.reported, hrefusal]
  cases refuses settings given <;> rfl

/-- A directory with two files and a directory in it. -/
def workshop : Files Id where
  workingDirectory := .ok "/work"
  kind? path :=
    if path = "st/a.st" || path = "st/b.st" then some .file
    else if path = "st" || path = "st/old" then some .directory
    else none
  read path :=
    if path = "st/a.st" then .ok "x := 1;".toUTF8
    else if path = "st/b.st" then .ok "y := 2".toUTF8
    else .error .notFound
  list path := if path = "st" then .ok ["b.st", "old", "a.st"] else .error .notFound
  standardInput := .ok .empty

/-- What is found there, and what the log says. -/
def workshopPackages : Packages Id :=
  { Packages.standard workshop with
    glob := fun pattern =>
      if pattern = "st/*" then .ok [.ok "st/a.st", .ok "st/b.st", .ok "st/old"] else .ok []
    log := fun e => s!" INFO {e.message} files={e.files} errors={e.errors}\n" }

end Run

end StructuredText
