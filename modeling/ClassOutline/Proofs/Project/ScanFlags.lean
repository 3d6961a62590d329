import ClassOutline.Cli.Session
import ClassOutline.Proofs.Project.NamedSettings
import Mathlib

/-!
# Scan flags over a settings file

A scan takes each of its options from a flag, else from the settings file of the scanned directory,
else from the defaults. `askedOptions` is that order written out. The run of a scan comes to the same
options with one exception (`run_scan`): the settings of the flags are merged into those of the file,
and a switch that is turned off cannot be told there from one that was not given. Where the file
asks for the last commit, no flag takes that back.
-/

namespace ClassOutline.Cli

namespace FlagValues

/-- The position of a switch that was given. -/
def switch? (values : FlagValues) (name : String) : Option Bool :=
  match values.get? name with
  | some (.switch b) => some b
  | _ => none

/-- The text that was given for a flag, unless it is empty. -/
def text? (values : FlagValues) (name : String) : Option Bytes :=
  match values.get? name with
  | some (.text s) => if s.isEmpty then none else some s
  | _ => none

/-- The number that was given for a flag, unless it is zero. -/
def number? (values : FlagValues) (name : String) : Option Int :=
  match values.get? name with
  | some (.number n) => if n = 0 then none else some n
  | _ => none

variable (values : FlagValues) (name : String)

theorem text_else (s : Bytes) :
    (if (values.text name []).isEmpty then s else values.text name []) =
      (values.text? name).getD s := by
  unfold text text?
  rcases values.get? name with _ | ⟨text | _ | _⟩
  · rfl
  · cases text <;> rfl
  · rfl
  · rfl

theorem number_else (n : Int) :
    (if values.number name = 0 then n else values.number name) = (values.number? name).getD n := by
  unfold number number?
  rcases values.get? name with _ | ⟨_ | m | _⟩
  · rfl
  · rfl
  · by_cases hm : m = 0 <;> simp [hm]
  · rfl

theorem isOn_eq : values.isOn name = (values.switch? name == some true) := by
  unfold isOn switch?
  rcases values.get? name with _ | ⟨_ | _ | b⟩
  · rfl
  · rfl
  · rfl
  · cases b <;> rfl

end FlagValues

/-- The options that flags and a settings file ask for. What neither of them names has its default,
and no flag is about names of files. -/
def askedOptions (root : Bytes) (values : FlagValues) (named : NamedSettings) : ScanOptions where
  root := root
  patterns := named.included.getD ProjectSettings.default.included
  excluded := named.excluded.getD ProjectSettings.default.excluded
  git := (values.switch? "git").getD (named.scan.git.getD ProjectSettings.default.scan.git)
  concurrency := (values.number? "concurrency").getD
    (named.scan.concurrency.getD ProjectSettings.default.scan.concurrency)
  maxFileBytes := (values.number? "max-bytes").getD
    (named.scan.maxFileBytes.getD ProjectSettings.default.scan.maxFileBytes)
  language := (values.text? "language").getD
    (named.language.getD ProjectSettings.default.language)

/-- The options that a scan comes to: the last commit is read if a flag or the file asks for it. -/
def mergedOptions (root : Bytes) (values : FlagValues) (named : NamedSettings) : ScanOptions :=
  { askedOptions root values named with
    git := values.isOn "git" || named.scan.git.getD ProjectSettings.default.scan.git }

/-- The outcome of a scan with some options. -/
def scanOutcome (h : Host) (values : FlagValues) (o : ScanOptions) : Outcome :=
  .ofExcept do
    let report ← (Scan.run .builtIn h.workspace o false).mapError .scan
    formatted (formatOf values) report.toJson

theorem scanOptions_override (root : Bytes) (values : FlagValues) (named : NamedSettings) :
    scanOptions root ((named.onto .default).override (flagSettings values (values.isOn "git"))) =
      mergedOptions root values named := by
  unfold scanOptions ProjectSettings.override flagSettings mergedOptions askedOptions
  dsimp only
  rw [FlagValues.text_else, FlagValues.number_else, FlagValues.number_else,
    Bool.or_comm]
  rfl

theorem mergedOptions_eq_asked_iff (root : Bytes) (values : FlagValues) (named : NamedSettings) :
    mergedOptions root values named = askedOptions root values named ↔
      ¬ (values.switch? "git" = some false ∧ named.scan.git = some true) := by
  have hgit : mergedOptions root values named = askedOptions root values named ↔
      (values.isOn "git" || named.scan.git.getD ProjectSettings.default.scan.git) =
        (values.switch? "git").getD (named.scan.git.getD ProjectSettings.default.scan.git) :=
    ⟨fun h => congrArg ScanOptions.git h, fun h => by rw [mergedOptions, h, askedOptions]⟩
  rw [hgit, FlagValues.isOn_eq]
  -- three states of the switch against three of the file
  rcases values.switch? "git" with _ | _ | _ <;> rcases named.scan.git with _ | _ | _ <;> decide

theorem runScan_eq {h : Host} {values : FlagValues} {root : Bytes} {named : NamedSettings}
    (hrepo : values.text "repo" [] = [])
    (hroot : dirPath h (values.text "path" Path.dot) = .ok root)
    (hfile : NamedSettings.load h.workspace.tree root = .ok named) :
    runScan h values = scanOutcome h values (mergedOptions root values named) := by
  have hload : ProjectSettings.load h.workspace.tree root = .ok (named.onto .default) := by
    rw [ProjectSettings.load_eq, hfile]
    rfl
  rw [runScan, hrepo, scanPath, hroot, scanOutcome]
  dsimp only
  rw [scanDirectory, hload]
  dsimp only
  rw [scanOptions_override]
  rfl

/-- The scan of a directory whose settings file can be read runs with the merged options. These are the
ones asked for, unless `--git` is turned off and the file asks for the last commit. -/
theorem run_scan (h : Host) (args : List Bytes) (input : Input) (values : FlagValues) (root : Bytes)
    (named : NamedSettings) (hcall : Call.ofArgs args = .ok (.run .scan values))
    (hrepo : values.text "repo" [] = [])
    (hroot : dirPath h (values.text "path" Path.dot) = .ok root)
    (hfile : NamedSettings.load h.workspace.tree root = .ok named) :
    (∃ p, ProjectSettings.load h.workspace.tree root = .ok p ∧
      scanOptions root (p.override (flagSettings values (values.isOn "git"))) =
        mergedOptions root values named) ∧
    run h args input = (scanOutcome h values (mergedOptions root values named), h) ∧
    (mergedOptions root values named = askedOptions root values named ↔
      ¬ (values.switch? "git" = some false ∧ named.scan.git = some true)) := by
  refine ⟨⟨named.onto .default, ?_, scanOptions_override root values named⟩, ?_,
    mergedOptions_eq_asked_iff root values named⟩
  · rw [ProjectSettings.load_eq, hfile]
    rfl
  · rw [run, hcall]
    dsimp only
    rw [runScan_eq hrepo hroot hfile]

/-! ## A switch turned off -/

theorem list_of_filter {ws : Workspace} {o : ScanOptions} {f : Filter} (hgit : o.git = false)
    (hfilter : Filter.ofDirectory ws.tree o.root o.patterns o.excluded o.maxFileBytes = .ok f) :
    Scan.list ws o =
      ((Scan.listDirectory ws.tree o.root f).mapError (.walk o.root)).map fun files => (files, none) := by
  unfold Scan.list
  rw [hfilter, hgit]
  change (do
    let files ← (Scan.listDirectory ws.tree o.root f).mapError (ScanError.walk o.root)
    return (files, none)) = _
  cases Scan.listDirectory ws.tree o.root f <;> rfl

/-- A scan that reads the working tree does not fail over the last commit. -/
theorem scan_run_ne_head (registry : Registry) (ws : Workspace) {o : ScanOptions}
    (hgit : o.git = false) (interrupted : Bool) (e : HeadError) :
    Scan.run registry ws o interrupted ≠ .error (.head e) := by
  cases hfilter : Filter.ofDirectory ws.tree o.root o.patterns o.excluded o.maxFileBytes with
  | error cause =>
    rw [Scan.run, Scan.list, hfilter]
    exact fun h => by cases h
  | ok f =>
    rw [Scan.run, list_of_filter hgit hfilter]
    cases Scan.listDirectory ws.tree o.root f with
    | error cause => exact fun h => by cases h
    | ok files =>
      change Scan.reportOn registry o files none interrupted ≠ _
      unfold Scan.reportOn
      split <;> nofun

theorem scanOutcome_error_ne_head (h : Host) (values : FlagValues) {o : ScanOptions}
    (hgit : o.git = false) (e : HeadError) :
    (scanOutcome h values o).error ≠ some (.scan (.head e)) := by
  have hrun := scan_run_ne_head .builtIn h.workspace hgit false e
  unfold scanOutcome
  cases hreport : Scan.run .builtIn h.workspace o false with
  | error cause =>
    rw [hreport] at hrun
    intro herror
    cases herror
    exact hrun rfl
  | ok report =>
    change (Outcome.ofExcept (formatted (formatOf values) report.toJson)).error ≠ _
    unfold formatted
    split
    · nofun
    split <;> nofun

/-- The text of a settings file that asks for the last commit. -/
def gitText : Bytes := Bytes.ofString "scan:\n  git: true\n"

/-- A host without a repository, whose working directory has that settings file. -/
def gitHost : Host where
  workspace := ⟨.dir [(ProjectSettings.fileName, .file gitText)], []⟩
  cwd := [Path.slash]

theorem load_gitHost : NamedSettings.load gitHost.workspace.tree [Path.slash] =
    .ok { scan := { git := some true } } := by
  have hpresent : ProjectSettings.isAbsent gitHost.workspace.tree
      (Path.join [Path.slash] ProjectSettings.fileName) = false := by cbv
  have hread : gitHost.workspace.tree.read (Path.join [Path.slash] ProjectSettings.fileName) =
      .ok gitText := by cbv
  have htext : (NamedSettings.ofText gitText).toOption = some { scan := { git := some true } } := by
    decide +kernel
  rw [NamedSettings.load, hpresent, NamedSettings.ofFile, hread]
  cases hnamed : NamedSettings.ofText gitText with
  | error fault =>
    rw [hnamed] at htext
    cases htext
  | ok named =>
    rw [hnamed] at htext
    cases htext
    rw [Bool.not_false, if_pos rfl]
    dsimp only
    rw [hnamed]
    rfl

theorem list_gitHost {o : ScanOptions} (hroot : o.root = [Path.slash]) (hgit : o.git = true) :
    Scan.list gitHost.workspace o = .error (.head .noRepository) := by
  obtain ⟨root, patterns, excluded, git, concurrency, maxFileBytes, language⟩ := o
  subst hroot hgit
  cbv

/-- A switch that is turned off, given besides other flags: the file's wish for the last commit stays,
and the rest is as asked. -/
theorem run_scan_concurrently :
    let args := ["scan", "--git=false", "-c", "2"].map Bytes.ofString
    let values : FlagValues := [("concurrency", .number 2), ("git", .switch false)]
    let named : NamedSettings := { scan := { git := some true } }
    let o : ScanOptions :=
      ⟨[Path.slash], ["*.java", "*.php", "*.py"].map Bytes.ofString,
        ["vendor", "node_modules", "__pycache__", "target", "build"].map Bytes.ofString, true, 2,
        1048576, []⟩
    Call.ofArgs args = .ok (.run .scan values) ∧ values.text "repo" [] = [] ∧
      dirPath gitHost (values.text "path" Path.dot) = .ok [Path.slash] ∧
      NamedSettings.load gitHost.workspace.tree [Path.slash] = .ok named ∧
      run gitHost args (.ok []) = (scanOutcome gitHost values o, gitHost) ∧
      o ≠ askedOptions [Path.slash] values named := by
  intro args values named o
  have hcall : Call.ofArgs args = .ok (.run .scan values) := by rfl
  have hroot : dirPath gitHost (values.text "path" Path.dot) = .ok [Path.slash] := by cbv
  obtain ⟨_, hrun, hasked⟩ :=
    run_scan gitHost args (.ok []) values [Path.slash] named hcall rfl hroot load_gitHost
  have hmerged : mergedOptions [Path.slash] values named = o := by rfl
  rw [hmerged] at hrun hasked
  exact ⟨hcall, rfl, hroot, load_gitHost, hrun, fun h => hasked.mp h ⟨rfl, rfl⟩⟩

/-- The working tree is asked for on the command line, and the run looks for the last commit. -/
theorem run_scan_git_off :
    let args := ["scan", "--git=false"].map Bytes.ofString
    let values : FlagValues := [("git", .switch false)]
    let named : NamedSettings := { scan := { git := some true } }
    Call.ofArgs args = .ok (.run .scan values) ∧
      NamedSettings.load gitHost.workspace.tree [Path.slash] = .ok named ∧
      (askedOptions [Path.slash] values named).git = false ∧
      run gitHost args (.ok []) ≠
        (scanOutcome gitHost values (askedOptions [Path.slash] values named), gitHost) := by
  intro args values named
  have hcall : Call.ofArgs args = .ok (.run .scan values) := by rfl
  have hroot : dirPath gitHost (values.text "path" Path.dot) = .ok [Path.slash] := by cbv
  have herror : (run gitHost args (.ok [])).1.error = some (.scan (.head .noRepository)) := by
    rw [run, hcall]
    dsimp only
    rw [runScan_eq rfl hroot load_gitHost, scanOutcome, Scan.run, list_gitHost rfl rfl]
    rfl
  refine ⟨hcall, load_gitHost, rfl, fun heq => ?_⟩
  rw [heq] at herror
  exact scanOutcome_error_ne_head gitHost values rfl _ herror

end ClassOutline.Cli
