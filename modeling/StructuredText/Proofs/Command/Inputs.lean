import Mathlib.Data.List.Forall2
import StructuredText.Command.Run

/-!
The settings and the inputs of a run, over files that stay as they are. Whether there are settings is said
about the configuration file, and what the arguments give about one argument after the other: each gives its
inputs, or fails in one of several ways, and of the arguments that fail the first one counts.
-/

namespace StructuredText.Run

section Monad

variable {ε α β : Type} {x : ExceptT ε Id α} {f : α → ExceptT ε Id β}

theorem run_liftM_bind {m : Type → Type} [Monad m] [LawfulMonad m] (x : m α)
    (f : α → ExceptT ε m β) : (liftM x >>= f).run = x >>= fun a => (f a).run := by
  change (ExceptT.lift x >>= f).run = _
  rw [ExceptT.run_bind, ExceptT.run_lift, bind_map_left]

/-- What is asked of files that stay as they are is a value. -/
theorem bind_id (x : Id α) (f : α → Id β) : x >>= f = f (Id.run x) :=
  rfl

theorem run_bind_of_ok {a : α} (h : x.run = Except.ok a) : (x >>= f).run = (f a).run := by
  rw [ExceptT.run_bind, h]
  rfl

theorem run_bind_of_error {e : ε} (h : x.run = Except.error e) : (x >>= f).run = Except.error e := by
  rw [ExceptT.run_bind, h]
  rfl

end Monad

variable (packages : Packages Id) (files : Files Id)

/-- Whether there is a file at a path, and not a directory. -/
def isFile (path : String) : Bool :=
  Id.run (files.kind? path) = some .file

/-- The text of a file, or why it cannot be read. -/
def fileText (path : String) : Except FileError (List Char) :=
  Id.run (files.read path) >>= decode

/-- The text of standard input, or why it cannot be read. -/
def standardText : Except FileError (List Char) :=
  Id.run files.standardInput >>= decode

/-- A file is read as an input, which has its path as name. -/
structure IsRead (path : String) (input : Input) : Prop where
  name : input.name = path
  text : fileText files path = .ok input.text

/-! ### Settings -/

/-- The configuration file: the given one, or the first of those looked for that is in a directory. -/
def configFile? (directory : String) (given : Option String) : Option String :=
  given.or ((configNames.map (Path.join directory)).find? (isFile files))

/-- There are no settings, because it is not known where to look for a configuration file, or because it
cannot be read, or because it says nothing. -/
inductive ConfigFails (given : Option String) : RunError → Prop
  | directory {error : FileError} (hdirectory : Id.run files.workingDirectory = .error error) :
      ConfigFails given (.unresolvedDirectory error)
  | unreadable {directory path : String} {error : FileError}
      (hdirectory : Id.run files.workingDirectory = .ok directory)
      (hpath : configFile? files directory given = some path)
      (hread : fileText files path = .error error) : ConfigFails given (.unreadableConfig path error)
  | invalid {directory path : String} {text : List Char} {causes : Causes}
      (hdirectory : Id.run files.workingDirectory = .ok directory)
      (hpath : configFile? files directory given = some path)
      (hread : fileText files path = .ok text) (hfile : packages.config text = .error causes) :
      ConfigFails given (.invalidConfig path causes)

/-- The settings, from the configuration file if there is one. -/
inductive ConfigGives (given : Option String) : Settings → Prop
  | default {directory : String} (hdirectory : Id.run files.workingDirectory = .ok directory)
      (hpath : configFile? files directory given = none) : ConfigGives given {}
  | file {directory path : String} {text : List Char} {file : ConfigFile}
      (hdirectory : Id.run files.workingDirectory = .ok directory)
      (hpath : configFile? files directory given = some path)
      (hread : fileText files path = .ok text) (hfile : packages.config text = .ok file) :
      ConfigGives given (.ofConfigFile file)

/-! ### Inputs -/

/-- The files that an argument stands for: itself, or for a pattern the files among the paths that are
found for it, in the order in which they are found. -/
inductive StandsFor : String → List String → Prop
  | plain {argument : String} (hplain : isPattern argument = false) : StandsFor argument [argument]
  | pattern {argument : String} {found : List String} (hpattern : isPattern argument)
      (hglob : Id.run (packages.glob argument) = .ok (found.map .ok))
      (hsome : ∃ path ∈ found, isFile files path) : StandsFor argument (found.filter (isFile files))

/-- An argument behind some others gives some inputs. -/
inductive Gives (earlier : List String) : String → List Input → Prop
  | standardInput {text : List Char} (hfirst : "-" ∉ earlier) (hread : standardText files = .ok text) :
      Gives earlier "-" [⟨standardInputName, text⟩]
  | files {argument : String} {paths : List String} {given : List Input} (hname : argument ≠ "-")
      (hpaths : StandsFor packages files argument paths)
      (hread : List.Forall₂ (IsRead files) paths given) : Gives earlier argument given

/-- An argument behind some others fails. -/
inductive Fails (earlier : List String) : String → RunError → Prop
  | repeated (hagain : "-" ∈ earlier) : Fails earlier "-" .repeatedStandardInput
  | standardInput {error : FileError} (hfirst : "-" ∉ earlier)
      (hread : standardText files = .error error) : Fails earlier "-" (.unreadableStandardInput error)
  | pattern {argument : String} {causes : Causes} (hpattern : isPattern argument)
      (hglob : Id.run (packages.glob argument) = .error causes) :
      Fails earlier argument (.invalidPattern argument causes)
  | expansion {argument : String} {before : List String} {after : List (Except Causes String)}
      {causes : Causes} (hpattern : isPattern argument)
      (hglob : Id.run (packages.glob argument) = .ok (before.map .ok ++ .error causes :: after)) :
      Fails earlier argument (.failedExpansion argument causes)
  | noMatch {argument : String} {found : List String} (hpattern : isPattern argument)
      (hglob : Id.run (packages.glob argument) = .ok (found.map .ok))
      (hnone : ∀ path ∈ found, ¬isFile files path) : Fails earlier argument (.noMatch argument)
  | file {argument path : String} {before after : List String} {error : FileError} (hname : argument ≠ "-")
      (hpaths : StandsFor packages files argument (before ++ path :: after))
      (hbefore : ∀ other ∈ before, ∃ text, fileText files other = .ok text)
      (hread : fileText files path = .error error) : Fails earlier argument (.unreadableInput path error)

/-- Arguments behind some others give inputs, one after the other. -/
inductive GivesAll : List String → List String → List Input → Prop
  | nil (earlier : List String) : GivesAll earlier [] []
  | cons {earlier rest : List String} {argument : String} {given others : List Input}
      (hgives : Gives packages files earlier argument given)
      (hrest : GivesAll (earlier ++ [argument]) rest others) :
      GivesAll earlier (argument :: rest) (given ++ others)

/-- The first of the arguments that fails does so with an error. -/
def FirstFails (arguments : List String) (error : RunError) : Prop :=
  ∃ before argument after given, arguments = before ++ argument :: after ∧
    GivesAll packages files [] before given ∧ Fails packages files before argument error

/-! ### What the run does -/

variable {packages} {files} {earlier : List String} {argument : String} {given : List Input} {error : RunError}

theorem configPath?_eq (directory : String) (path? : Option String) :
    Id.run (configPath? files directory path?) = configFile? files directory path? := by
  cases path? with
  | some path => rfl
  | none => exact List.findM?_pure (m := Id) (isFile files) _

theorem settings_of_gives {path? : Option String} {config : Settings}
    (h : ConfigGives packages files path? config) :
    (settings packages files path?).run = Except.ok config := by
  rw [settings, run_liftM_bind, bind_id]
  cases h with
  | default hdirectory hpath =>
      simp only [hdirectory, run_liftM_bind, bind_id, configPath?_eq, hpath]
      rfl
  | file hdirectory hpath hread hfile =>
      rw [fileText] at hread
      simp only [hdirectory, configPath?_eq, hpath, run_liftM_bind, bind_id, hread, hfile]
      rfl

theorem settings_of_fails {path? : Option String} (h : ConfigFails packages files path? error) :
    (settings packages files path?).run = Except.error error := by
  rw [settings, run_liftM_bind, bind_id]
  cases h with
  | directory hdirectory =>
      simp only [hdirectory]
      rfl
  | unreadable hdirectory hpath hread =>
      rw [fileText] at hread
      simp only [hdirectory, configPath?_eq, hpath, run_liftM_bind, bind_id, hread]
      rfl
  | invalid hdirectory hpath hread hfile =>
      rw [fileText] at hread
      simp only [hdirectory, configPath?_eq, hpath, run_liftM_bind, bind_id, hread, hfile]
      rfl

theorem config_fails_or_gives (packages : Packages Id) (files : Files Id) (path? : Option String) :
    (∃ error, ConfigFails packages files path? error) ∨
      ∃ config, ConfigGives packages files path? config := by
  cases hdirectory : Id.run files.workingDirectory with
  | error error => exact .inl ⟨_, .directory hdirectory⟩
  | ok directory =>
      cases hpath : configFile? files directory path? with
      | none => exact .inr ⟨_, .default hdirectory hpath⟩
      | some path =>
          cases hread : fileText files path with
          | error error => exact .inl ⟨_, .unreadable hdirectory hpath hread⟩
          | ok text =>
              cases hfile : packages.config text with
              | error causes => exact .inl ⟨_, .invalid hdirectory hpath hread hfile⟩
              | ok file => exact .inr ⟨_, .file hdirectory hpath hread hfile⟩

theorem readInput_of_isRead {path : String} {input : Input} (h : IsRead files path input) :
    (readInput files path).run = Except.ok input := by
  obtain ⟨rfl, hread⟩ := h
  rw [fileText] at hread
  rw [readInput, run_liftM_bind, bind_id, hread]
  rfl

theorem readInput_of_error {path : String} {error : FileError}
    (hread : fileText files path = .error error) :
    (readInput files path).run = Except.error (.unreadableInput path error) := by
  rw [fileText] at hread
  rw [readInput, run_liftM_bind, bind_id, hread]
  rfl

theorem readAll_of_ok {paths : List String} (h : List.Forall₂ (IsRead files) paths given) :
    (paths.mapM (readInput files)).run = Except.ok given := by
  induction h with
  | nil => rfl
  | cons h _ ih =>
      rw [List.mapM_cons, run_bind_of_ok (readInput_of_isRead h), run_bind_of_ok ih]
      rfl

theorem readAll_of_error {before after : List String} {path : String} {error : FileError}
    (hbefore : ∀ other ∈ before, ∃ text, fileText files other = .ok text)
    (hread : fileText files path = .error error) :
    ((before ++ path :: after).mapM (readInput files)).run =
      Except.error (.unreadableInput path error) := by
  induction before with
  | nil => rw [List.nil_append, List.mapM_cons, run_bind_of_error (readInput_of_error hread)]
  | cons other before ih =>
      obtain ⟨⟨text, htext⟩, hbefore⟩ := List.forall_mem_cons.mp hbefore
      have hother : (readInput files other).run = Except.ok ⟨other, text⟩ :=
        readInput_of_isRead ⟨rfl, htext⟩
      rw [List.cons_append, List.mapM_cons, run_bind_of_ok hother, run_bind_of_error (ih hbefore)]

/-- Either all files are read, or there is a first one that cannot be. -/
theorem readAll_cases (files : Files Id) (paths : List String) :
    (∃ given, List.Forall₂ (IsRead files) paths given) ∨
    ∃ before path after error, paths = before ++ path :: after ∧
      (∀ other ∈ before, ∃ text, fileText files other = .ok text) ∧
      fileText files path = .error error := by
  induction paths with
  | nil => exact .inl ⟨[], .nil⟩
  | cons path paths ih =>
      cases hread : fileText files path with
      | error error => exact .inr ⟨[], path, paths, error, rfl, nofun, hread⟩
      | ok text =>
          rcases ih with ⟨given, hgiven⟩ | ⟨before, other, after, error, rfl, hbefore, hother⟩
          · exact .inl ⟨⟨path, text⟩ :: given, .cons ⟨rfl, hread⟩ hgiven⟩
          · refine .inr ⟨path :: before, other, after, error, rfl, ?_, hother⟩
            exact List.forall_mem_cons.mpr ⟨⟨text, hread⟩, hbefore⟩

/-- What is found for a pattern: only paths, or paths up to something that could not be looked at. -/
theorem found_cases (found : List (Except Causes String)) :
    (∃ paths : List String, found = paths.map .ok) ∨
    ∃ (before : List String) (causes : Causes) (after : List (Except Causes String)),
      found = before.map .ok ++ .error causes :: after := by
  induction found with
  | nil => exact .inl ⟨[], rfl⟩
  | cons entry found ih =>
      cases entry with
      | error causes => exact .inr ⟨[], causes, found, rfl⟩
      | ok path =>
          rcases ih with ⟨paths, rfl⟩ | ⟨before, causes, after, rfl⟩
          · exact .inl ⟨path :: paths, rfl⟩
          · exact .inr ⟨path :: before, causes, after, rfl⟩

theorem filesAmong_of_ok (files : Files Id) (pattern : String) (paths : List String) :
    (filesAmong files pattern (paths.map .ok)).run = Except.ok (paths.filter (isFile files)) := by
  induction paths with
  | nil => rfl
  | cons path paths ih =>
      rw [List.map_cons, filesAmong, run_liftM_bind, bind_id, run_bind_of_ok ih, List.filter_cons]
      simp only [isFile, decide_eq_true_iff]
      rfl

theorem filesAmong_of_error (files : Files Id) (pattern : String) (before : List String)
    (causes : Causes) (after : List (Except Causes String)) :
    (filesAmong files pattern (before.map .ok ++ .error causes :: after)).run =
      Except.error (.failedExpansion pattern causes) := by
  induction before with
  | nil => rfl
  | cons path before ih =>
      rw [List.map_cons, List.cons_append, filesAmong, run_liftM_bind, bind_id, run_bind_of_error ih]

/-- A pattern for which only paths are found stands for the files among them. -/
theorem expand_of_found {found : List String} (hpattern : isPattern argument)
    (hglob : Id.run (packages.glob argument) = .ok (found.map .ok)) :
    (expand packages files argument).run =
      if (found.filter (isFile files)).isEmpty then Except.error (.noMatch argument)
      else Except.ok (found.filter (isFile files)) := by
  rw [expand, if_pos hpattern, run_liftM_bind, bind_id]
  simp only [hglob, run_bind_of_ok (filesAmong_of_ok files argument found)]
  split <;> rfl

theorem expand_of_standsFor {paths : List String} (h : StandsFor packages files argument paths) :
    (expand packages files argument).run = Except.ok paths := by
  cases h with
  | plain hplain =>
      rw [expand, hplain]
      rfl
  | pattern hpattern hglob hsome =>
      obtain ⟨path, hpath, hfile⟩ := hsome
      rw [expand_of_found hpattern hglob, if_neg]
      exact fun hnone => List.filter_eq_nil_iff.mp (List.isEmpty_iff.mp hnone) path hpath hfile

theorem expand_of_pattern {causes : Causes} (hpattern : isPattern argument)
    (hglob : Id.run (packages.glob argument) = .error causes) :
    (expand packages files argument).run = Except.error (.invalidPattern argument causes) := by
  rw [expand, if_pos hpattern, run_liftM_bind, bind_id]
  simp only [hglob]
  rfl

theorem expand_of_expansion {before : List String} {causes : Causes}
    {after : List (Except Causes String)} (hpattern : isPattern argument)
    (hglob : Id.run (packages.glob argument) = .ok (before.map .ok ++ .error causes :: after)) :
    (expand packages files argument).run = Except.error (.failedExpansion argument causes) := by
  rw [expand, if_pos hpattern, run_liftM_bind, bind_id]
  simp only [hglob, run_bind_of_error (filesAmong_of_error files argument before causes after)]

/-- Behind an argument that gives inputs, the others are gone through, and know of it. -/
theorem inputs_of_gives (h : Gives packages files earlier argument given) (rest : List String) :
    (inputs packages files (decide ("-" ∈ earlier)) (argument :: rest)).run =
      (inputs packages files (decide ("-" ∈ earlier ++ [argument])) rest >>= fun others =>
        pure (given ++ others)).run := by
  rw [inputs]
  cases h with
  | @standardInput text hfirst hread =>
      rw [standardText] at hread
      have hinput : (readStandardInput files).run = Except.ok ⟨standardInputName, text⟩ := by
        rw [readStandardInput, run_liftM_bind, bind_id, hread]
        rfl
      have hseen : decide ("-" ∈ earlier ++ ["-"]) = true := by simp
      rw [if_pos rfl, if_neg (by simpa using hfirst), run_bind_of_ok hinput, hseen]
      rfl
  | files hname hpaths hread =>
      have hseen : decide ("-" ∈ earlier ++ [argument]) = decide ("-" ∈ earlier) := by
        simp [hname.symm]
      rw [if_neg hname, run_bind_of_ok (expand_of_standsFor hpaths), run_bind_of_ok (readAll_of_ok hread),
        hseen]

theorem inputs_of_fails (h : Fails packages files earlier argument error) (rest : List String) :
    (inputs packages files (decide ("-" ∈ earlier)) (argument :: rest)).run = Except.error error := by
  have hpattern_ne (hpattern : isPattern argument) : argument ≠ "-" := by
    rintro rfl
    cases hpattern
  rw [inputs]
  cases h with
  | repeated hagain =>
      rw [if_pos rfl, if_pos (by simpa using hagain)]
      rfl
  | @standardInput cause hfirst hread =>
      rw [standardText] at hread
      have hinput : (readStandardInput files).run = Except.error (.unreadableStandardInput cause) := by
        rw [readStandardInput, run_liftM_bind, bind_id, hread]
        rfl
      rw [if_pos rfl, if_neg (by simpa using hfirst), run_bind_of_error hinput]
  | pattern hpattern hglob =>
      rw [if_neg (hpattern_ne hpattern), run_bind_of_error (expand_of_pattern hpattern hglob)]
  | expansion hpattern hglob =>
      rw [if_neg (hpattern_ne hpattern), run_bind_of_error (expand_of_expansion hpattern hglob)]
  | noMatch hpattern hglob hnone =>
      have hempty : (expand packages files argument).run = Except.error (.noMatch argument) := by
        rw [expand_of_found hpattern hglob, List.filter_eq_nil_iff.mpr hnone]
        rfl
      rw [if_neg (hpattern_ne hpattern), run_bind_of_error hempty]
  | file hname hpaths hbefore hread =>
      rw [if_neg hname, run_bind_of_ok (expand_of_standsFor hpaths),
        run_bind_of_error (readAll_of_error hbefore hread)]

/-- An argument fails or gives inputs. -/
theorem fails_or_gives (packages : Packages Id) (files : Files Id) (earlier : List String)
    (argument : String) :
    (∃ error, Fails packages files earlier argument error) ∨
      ∃ given, Gives packages files earlier argument given := by
  by_cases hname : argument = "-"
  · subst hname
    by_cases hagain : "-" ∈ earlier
    · exact .inl ⟨_, .repeated hagain⟩
    · cases hread : standardText files with
      | error error => exact .inl ⟨_, .standardInput hagain hread⟩
      | ok text => exact .inr ⟨_, .standardInput hagain hread⟩
  · -- An argument that stands for some files fails at the first of them that cannot be read.
    have hstands {paths : List String} (hpaths : StandsFor packages files argument paths) :
        (∃ error, Fails packages files earlier argument error) ∨
          ∃ given, Gives packages files earlier argument given := by
      rcases readAll_cases files paths with
        ⟨given, hgiven⟩ | ⟨before, path, after, error, rfl, hbefore, hread⟩
      · exact .inr ⟨given, .files hname hpaths hgiven⟩
      · exact .inl ⟨_, .file hname hpaths hbefore hread⟩
    cases hpattern : isPattern argument with
    | false => exact hstands (.plain hpattern)
    | true =>
        cases hglob : Id.run (packages.glob argument) with
        | error causes => exact .inl ⟨_, .pattern hpattern hglob⟩
        | ok found =>
            rcases found_cases found with ⟨paths, rfl⟩ | ⟨before, causes, after, rfl⟩
            · by_cases hsome : ∃ path ∈ paths, isFile files path
              · exact hstands (.pattern hpattern hglob hsome)
              · exact .inl ⟨_, .noMatch hpattern hglob (by simpa using hsome)⟩
            · exact .inl ⟨_, .expansion hpattern hglob⟩

/-! ### All arguments -/

theorem inputs_of_givesAll {arguments : List String} (h : GivesAll packages files earlier arguments given) :
    (inputs packages files (decide ("-" ∈ earlier)) arguments).run = Except.ok given := by
  induction h with
  | nil => rfl
  | cons hgives _ ih =>
      rw [inputs_of_gives hgives, run_bind_of_ok ih]
      rfl

theorem inputs_of_givesAll_of_fails {before : List String} (h : GivesAll packages files earlier before given)
    (hfails : Fails packages files (earlier ++ before) argument error) (after : List String) :
    (inputs packages files (decide ("-" ∈ earlier)) (before ++ argument :: after)).run = Except.error error := by
  induction h with
  | nil =>
      rw [List.append_nil] at hfails
      exact inputs_of_fails hfails after
  | cons hgives _ ih =>
      rw [List.append_cons] at hfails
      rw [List.cons_append, inputs_of_gives hgives, run_bind_of_error (ih hfails)]

theorem inputs_of_firstFails {arguments : List String} (h : FirstFails packages files arguments error) :
    (inputs packages files false arguments).run = Except.error error := by
  obtain ⟨before, argument, after, given, rfl, hgives, hfails⟩ := h
  exact inputs_of_givesAll_of_fails hgives hfails after

/-- Either all arguments give their inputs, or there is a first one that fails. -/
theorem givesAll_cases (packages : Packages Id) (files : Files Id) (earlier arguments : List String) :
    (∃ given, GivesAll packages files earlier arguments given) ∨
    ∃ before argument after given error, arguments = before ++ argument :: after ∧
      GivesAll packages files earlier before given ∧ Fails packages files (earlier ++ before) argument error := by
  induction arguments generalizing earlier with
  | nil => exact .inl ⟨[], .nil earlier⟩
  | cons argument rest ih =>
      rcases fails_or_gives packages files earlier argument with ⟨error, hfails⟩ | ⟨given, hgives⟩
      · refine .inr ⟨[], argument, rest, [], error, rfl, .nil earlier, ?_⟩
        rwa [List.append_nil]
      · rcases ih (earlier ++ [argument]) with
          ⟨others, hothers⟩ | ⟨before, other, after, others, error, rfl, hothers, hfails⟩
        · exact .inl ⟨_, .cons hgives hothers⟩
        · refine .inr ⟨argument :: before, other, after, _, error, rfl, .cons hgives hothers, ?_⟩
          rwa [List.append_cons]

theorem firstFails_or_givesAll (packages : Packages Id) (files : Files Id) (arguments : List String) :
    (∃ error, FirstFails packages files arguments error) ∨
      ∃ given, GivesAll packages files [] arguments given := by
  rcases givesAll_cases packages files [] arguments with
    hgives | ⟨before, argument, after, given, error, hsplit, hgives, hfails⟩
  · exact .inr hgives
  · exact .inl ⟨error, before, argument, after, given, hsplit, hgives, hfails⟩

end StructuredText.Run
