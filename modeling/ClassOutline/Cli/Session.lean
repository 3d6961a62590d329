import ClassOutline.Cli.Command
import ClassOutline.Envelope
import ClassOutline.Project
import ClassOutline.Remote.Clone
import ClassOutline.Scan.Report
import ClassOutline.Settings

/-!
# Runs of the program

A run of the program takes a list of arguments and the standard input, and finds files,
repositories and environment variables on its host. It ends with output and perhaps an error, and
leaves the host changed only when settings were written (`Cli.run`).
-/

namespace ClassOutline.Cli

/-- What a run finds around it. -/
structure Host where
  workspace : Workspace
  /-- The working directory. -/
  cwd : Bytes
  environment : Settings.Environment := []
  /-- The repositories that can be cloned, by address. -/
  remotes : List (Bytes × Repository) := []

/-- The standard input: a text, or the reason why it could not be read to its end. -/
abbrev Input := Except Bytes Bytes

/-! ## Errors -/

/-- Why a path cannot be used. -/
inductive PathError where
  | absent (kind : String)
  | inaccessible (path : Bytes) (cause : FileError)
  | isDirectory (path : Bytes)
  | notDirectory (path : Bytes)
deriving DecidableEq, Repr

/-- The error in words. -/
def PathError.message : PathError → Bytes
  | .absent kind => Bytes.ofString (kind ++ " path is required")
  | .inaccessible path cause =>
    Bytes.ofString "cannot access " ++ path ++ Bytes.ofString ": " ++ cause.message
  | .isDirectory path => path ++ Bytes.ofString " is a directory"
  | .notDirectory path => path ++ Bytes.ofString " is not a directory"

/-- Why a run fails. -/
inductive RunError where
  | usage (cause : UsageError)
  | format (word : Bytes)
  | noCode
  | input (reason : Bytes)
  | path (cause : PathError)
  | unreadable (cause : FileError)
  | directory (cause : PathError)
  | repository (cause : RemoteError)
  | tempDir (cause : FileError)
  | clone (cause : CloneError)
  | settings (cause : ProjectSettings.LoadError)
  | scan (cause : ScanError)
  | taken (name : Bytes)
  | unwritable (target : Bytes) (cause : FileError)
deriving DecidableEq, Repr

/-- The error in words. -/
def RunError.message : RunError → Bytes
  | .usage cause => cause.message
  | .format word =>
    Bytes.ofString "unsupported format " ++ word.quoted ++ Bytes.ofString " (use json or yaml)"
  | .noCode => Bytes.ofString "no code provided"
  | .input reason => Bytes.ofString "failed to read stdin: " ++ reason
  | .path cause => cause.message
  | .unreadable cause => Bytes.ofString "failed to read file: " ++ cause.message
  | .directory cause => Bytes.ofString "invalid directory: " ++ cause.message
  | .repository cause => Bytes.ofString "invalid repository: " ++ cause.message
  | .tempDir cause => Bytes.ofString "failed to create temp dir: " ++ cause.message
  | .clone cause => cause.message
  | .settings cause => cause.message
  | .scan cause => cause.message
  | .taken name => name ++ Bytes.ofString " already exists, use --force to overwrite"
  | .unwritable target cause =>
    Bytes.ofString "failed to write " ++ target ++ Bytes.ofString ": " ++ cause.message

/-- The outcome of a run. -/
structure Outcome where
  output : Bytes := []
  error : Option RunError := none
  /-- The credentials with which repositories were asked for, one for each attempt. -/
  credentials : List Bytes := []
deriving DecidableEq, Repr

/-- The outcome of a run that either prints something or fails. -/
def Outcome.ofExcept : Except RunError Bytes → Outcome
  | .ok output => { output }
  | .error e => { error := some e }

/-- The status with which a run exits. -/
def Outcome.exitCode (o : Outcome) : Nat := if o.error.isSome then 1 else 0

/-- What a run writes to the standard error stream. -/
def Outcome.errorText (o : Outcome) : Bytes :=
  match o.error with
  | some e => e.message ++ [10]
  | none => []

/-! ## Output -/

/-- The text of a value in a format. -/
def formatted (format : Bytes) (j : Json) : Except RunError Bytes :=
  if format.isEmpty || format == Bytes.ofString "json" then .ok j.document
  else if format == Bytes.ofString "yaml" || format == Bytes.ofString "yml" then .ok (Yaml.write 2 j)
  else .error (.format format)

/-- The format that flags ask for. -/
def formatOf (values : FlagValues) : Bytes := values.text "format" (Bytes.ofString "json")

/-! ## Paths -/

/-- The absolute form of a path to a file. -/
def filePath (h : Host) (path : Bytes) : Except PathError Bytes :=
  if path.isEmpty then .error (.absent "file")
  else
    let full := Path.seenFrom h.cwd path
    match h.workspace.tree.stat full with
    | .error cause => .error (.inaccessible path cause)
    | .ok entry => if entry.isDir then .error (.isDirectory path) else .ok full

/-- The absolute form of a path to a directory. -/
def dirPath (h : Host) (path : Bytes) : Except PathError Bytes :=
  if path.isEmpty then .error (.absent "directory")
  else
    let full := Path.seenFrom h.cwd path
    match h.workspace.tree.stat full with
    | .error cause => .error (.inaccessible path cause)
    | .ok entry => if entry.isDir then .ok full else .error (.notDirectory path)

/-! ## One file -/

/-- The code to look at, and its file name. A dash stands for the standard input, which has no
name. -/
def source (h : Host) (input : Input) (file : Bytes) : Except RunError (Bytes × Bytes) :=
  if file == [0x2D] then (input.mapError .input).map fun code => (code, [])
  else
    match filePath h file with
    | .error cause => .error (.path cause)
    | .ok full =>
      match h.workspace.tree.read full with
      | .error cause => .error (.unreadable cause)
      | .ok code => .ok (code, Path.base full)

/-- The analysis of one file. Without code the envelope says so, and the run fails as well. -/
def runParse (h : Host) (input : Input) (values : FlagValues) : Outcome :=
  let hint := values.text "language" []
  match source h input (values.text "file" []) with
  | .error e => { error := some e }
  | .ok (code, filename) =>
    if code.isBlank then
      match formatted (formatOf values) (Envelope.noCode hint filename).toJson with
      | .ok output => { output, error := some .noCode }
      | .error e => { error := some e }
    else
      let a := Registry.builtIn.analyze code hint filename
      .ofExcept <| formatted (formatOf values) <|
        (Envelope.ofOutline (some a.outline) a.language filename).toJson

/-- A line with a label. -/
def labelled (label : String) (text : Bytes) : Bytes :=
  Bytes.ofString (label ++ ": ") ++ text ++ [10]

/-- The language of one file, what told it, and the languages that its code shows. -/
def detection (code filename : Bytes) : Bytes :=
  let language := Language.detect code filename
  let told :=
    if !(Language.ofFilename filename).isEmpty then "filename"
    else if language.isEmpty then "none"
    else "content"
  let candidates := Language.candidates code
  labelled "Language" (if language.isEmpty then Bytes.ofString "unknown" else language) ++
    labelled "Source" (Bytes.ofString told) ++
    labelled "Content matches"
      (if candidates.isEmpty then Bytes.ofString "none"
        else Bytes.join (Bytes.ofString ", ") candidates)

/-- What the language of one file is. -/
def runDetect (h : Host) (input : Input) (values : FlagValues) : Outcome :=
  .ofExcept <| (source h input (values.text "file" [])).map fun s => detection s.1 s.2

/-! ## Scans -/

/-- The settings that the flags of a scan give. -/
def flagSettings (values : FlagValues) (git : Bool) : ProjectSettings where
  version := []
  language := values.text "language" []
  included := []
  excluded := []
  scan :=
    { concurrency := values.number "concurrency"
      git := git
      maxFileBytes := values.number "max-bytes" }

/-- The options of a scan of a directory: its settings, with the flags laid over them. -/
def scanOptions (root : Bytes) (p : ProjectSettings) : ScanOptions where
  root := root
  patterns := p.included
  excluded := p.excluded
  git := p.scan.git
  concurrency := p.scan.concurrency
  maxFileBytes := p.scan.maxFileBytes
  language := p.language

/-- The report on a directory of a workspace. -/
def scanDirectory (ws : Workspace) (root : Bytes) (flags : ProjectSettings) :
    Except RunError Report :=
  match ProjectSettings.load ws.tree root with
  | .error cause => .error (.settings cause)
  | .ok p => (Scan.run .builtIn ws (scanOptions root (p.override flags)) false).mapError .scan

/-- The scan of a directory. -/
def scanPath (h : Host) (values : FlagValues) : Except RunError Bytes :=
  match dirPath h (values.text "path" Path.dot) with
  | .error cause => .error (.directory cause)
  | .ok root => do
    let report ← scanDirectory h.workspace root (flagSettings values (values.isOn "git"))
    formatted (formatOf values) report.toJson

/-- The token for remote repositories, empty when there is none. -/
def token (h : Host) : Bytes :=
  ((Settings.lookup? h.environment "GIT_TOKEN").or
    (Settings.lookup? h.environment "GITHUB_TOKEN")).getD []

/-- The user name and token with which a repository is asked for. -/
def credentials (h : Host) : Bytes :=
  if (token h).isEmpty then [] else Bytes.ofString "git:" ++ token h

/-- A new directory for temporary files. -/
def tempDir (h : Host) : Except FileError Bytes :=
  let parent := (Settings.lookup? h.environment "TMPDIR").getD (Bytes.ofString "/tmp")
  let dir := Path.join parent (Bytes.ofString "umlparse-0")
  match h.workspace.tree.lookup true (Path.seenFrom h.cwd parent) with
  | .error .missing => .error ⟨"stat", parent, .missing⟩
  | .error fault => .error ⟨"mkdir", dir, fault⟩
  | .ok entry => if entry.isDir then .ok (Path.seenFrom h.cwd dir) else .error ⟨"mkdir", dir, .notDirectory⟩

/-- The scan of a clone in a directory. The report is about the address, not the directory. -/
def scanClone (h : Host) (values : FlagValues) (url dir : Bytes) (c : Clone) :
    Except RunError Bytes := do
  let report ← scanDirectory (c.placeIn h.workspace dir) dir (flagSettings values true)
  formatted (formatOf values) { report with root := url, revision := some c.revision }.toJson

/-- The scan of a remote repository. The clone is gone afterwards. -/
def scanRemote (h : Host) (values : FlagValues) (url : Bytes) : Outcome :=
  match RemoteRepository.parse url with
  | .error cause => { error := some (.repository cause) }
  | .ok r =>
    match tempDir h with
    | .error cause => { error := some (.tempDir cause) }
    | .ok dir =>
      let result : Except RunError Bytes :=
        match (h.remotes.find? fun e => e.1 == r.cloneUrl).map Prod.snd with
        | none => .error (.clone .notFound)
        | some remote =>
          match Clone.ofRemote remote (values.text "branch" []) with
          | .error cause => .error (.clone cause)
          | .ok c => scanClone h values url dir c
      { Outcome.ofExcept result with credentials := [credentials h] }

/-- The scan of a directory or of a remote repository. -/
def runScan (h : Host) (values : FlagValues) : Outcome :=
  let url := values.text "repo" []
  if url.isEmpty then .ofExcept (scanPath h values) else scanRemote h values url

/-! ## Settings files -/

/-- The name of a settings file that is already in a directory. -/
def settingsIn? (tree : Entry) (dir : Bytes) : Option Bytes :=
  [ProjectSettings.fileName, ProjectSettings.otherFileName].find? fun name =>
    tree.exists? (Path.join dir name)

/-- The default settings written into a directory: the tree afterwards, and the file. -/
def writeSettings (h : Host) (values : FlagValues) : Except RunError (Entry × Bytes) :=
  let tree := h.workspace.tree
  match dirPath h (values.text "path" Path.dot) with
  | .error cause => .error (.directory cause)
  | .ok root =>
    let target := Path.join root ProjectSettings.fileName
    match if values.isOn "force" then none else settingsIn? tree root with
    | some name => .error (.taken name)
    | none =>
      match ProjectSettings.default.save tree root with
      | .ok tree => .ok (tree, target)
      | .error cause => .error (.unwritable target cause)

/-- A settings file with the defaults. -/
def runInit (h : Host) (values : FlagValues) : Outcome × Host :=
  match writeSettings h values with
  | .ok (tree, target) =>
    ({ output := Bytes.ofString "Created " ++ target ++ [10] },
      { h with workspace := { h.workspace with tree } })
  | .error e => ({ error := some e }, h)

/-! ## The program -/

/-- The path that a call is about, if it is about one: its file or its directory. -/
def Call.path? : Call → Option Bytes
  | .run .parse values | .run .detect values =>
    let file := values.text "file" []
    if file.isEmpty || file == [0x2D] then none else some file
  | .run .scan values =>
    if (values.text "repo" []).isEmpty then some (values.text "path" Path.dot) else none
  | .run .init values => some (values.text "path" Path.dot)
  | _ => none

/-- A short help text: the commands, or the flags of one. -/
def helpText (c : Command) : Bytes :=
  let usage := if c = .program then " [command]" else " [flags]"
  let name := ((Command.words.find? fun w => w.2 = c).map fun w => " " ++ w.1).getD ""
  let commands :=
    if c = .program then
      "\n\nCommands:\n" ++ String.join (Command.words.map fun w => "  " ++ w.1 ++ "\n")
    else "\n"
  Bytes.ofString ("Usage:\n  " ++ Command.programName ++ name ++ usage ++ commands ++ "\nFlags:\n") ++
    c.flags.flatMap fun f => Bytes.ofString "  " ++ f.shown ++ [10]

/-- The version line. -/
def versionText : Bytes :=
  Bytes.ofString (Command.programName ++ " version " ++ Command.version ++ "\n")

/-- A run of the program: its outcome, and the host afterwards. -/
def run (h : Host) (args : List Bytes) (input : Input) : Outcome × Host :=
  match Call.ofArgs args with
  | .error e => ({ error := some (.usage e) }, h)
  | .ok (.help c) => ({ output := helpText c }, h)
  | .ok .version => ({ output := versionText }, h)
  | .ok (.run .parse values) => (runParse h input values, h)
  | .ok (.run .detect values) => (runDetect h input values, h)
  | .ok (.run .scan values) => (runScan h values, h)
  | .ok (.run .init values) => runInit h values
  | .ok (.run c _) => ({ output := helpText c }, h)

end ClassOutline.Cli
