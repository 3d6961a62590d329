import ClassOutline.Model.Wire
import ClassOutline.Registry
import ClassOutline.Scan.Head

/-!
# Scans

A scan analyzes every file of a directory, or of the last commit, and reports one result per file
and the totals. A file that cannot be read is reported with the reason; only a failed listing and an
interruption end a scan without a report.

* `Scan.run`: the report of a scan. The analyses may run at the same time; that the report does not
  show this is the matter of `ClassOutline.Scan.Workers`.
* `Report.toJson`: its wire form. Fields that are empty are left out.
-/

namespace ClassOutline

/-- The analysis of one file: either a result or an error. -/
structure FileResult where
  path : Bytes
  language : Language
  merged : Bool
  result : Option Outline
  error : Bytes
deriving DecidableEq, Repr

/-- Totals over the files of a scan. -/
structure Summary where
  files : Nat
  failed : Nat
  classes : Nat
  functions : Nat
  relationships : Nat
deriving DecidableEq, Repr

/-- The outcome of a scan. -/
structure Report where
  root : Bytes
  revision : Option Revision
  files : List FileResult
  summary : Summary
deriving DecidableEq, Repr

/-- What to scan and how. -/
structure ScanOptions where
  root : Bytes
  patterns : List Bytes
  excluded : List Bytes
  git : Bool
  concurrency : Int
  maxFileBytes : Int
  /-- A hint for every file. -/
  language : Bytes
deriving DecidableEq, Repr

/-- Why a scan gives no report. -/
inductive ScanError where
  | ignoreFile (cause : FileError)
  | walk (root : Bytes) (cause : FileError)
  | head (cause : HeadError)
  | interrupted
deriving DecidableEq, Repr

/-- The error in words. -/
def ScanError.message : ScanError → Bytes
  | .ignoreFile e => Bytes.ofString "failed to read .gitignore: " ++ e.message
  | .walk root e =>
    Bytes.ofString "failed to walk " ++ root ++ Bytes.ofString ": " ++ e.message
  | .head e => e.message
  | .interrupted => Bytes.ofString "scan interrupted: context canceled"

namespace Scan

/-- The analysis of a file. A blank file has an empty outline, and its language is told by its name
alone. -/
def analyzeFile (registry : Registry) (hint : Bytes) (f : ScannedFile) : FileResult :=
  match f.content with
  | .error reason => ⟨f.path, [], false, none, reason⟩
  | .ok code =>
    if code.isBlank then ⟨f.path, Language.ofFilename f.path, false, some .empty, []⟩
    else
      let a := registry.analyze code hint f.path
      ⟨f.path, a.language, a.merged, some a.outline, []⟩

/-- The totals with one more file. -/
def addResult (s : Summary) (r : FileResult) : Summary :=
  if !r.error.isEmpty then { s with files := s.files + 1, failed := s.failed + 1 }
  else
    let o := r.result.getD .empty
    { s with
      files := s.files + 1
      classes := s.classes + o.classes.length
      functions := s.functions + o.functions.length
      relationships := s.relationships + o.edges.length }

/-- The totals over some results. -/
def summarize (results : List FileResult) : Summary := results.foldl addResult ⟨0, 0, 0, 0, 0⟩

/-- The files of a scan, and the revision they belong to. -/
def list (ws : Workspace) (o : ScanOptions) :
    Except ScanError (List ScannedFile × Option Revision) := do
  let f ← (Filter.ofDirectory ws.tree o.root o.patterns o.excluded o.maxFileBytes).mapError
    .ignoreFile
  if o.git then
    let (files, revision) ← (headFiles ws o.root f).mapError .head
    return (files, some revision)
  else
    let files ← (listDirectory ws.tree o.root f).mapError (.walk o.root)
    return (files, none)

/-- The report on some files. An interrupted scan has none, unless there is nothing to do. -/
def reportOn (registry : Registry) (o : ScanOptions) (files : List ScannedFile)
    (revision : Option Revision) (interrupted : Bool) : Except ScanError Report :=
  if interrupted && !files.isEmpty then .error .interrupted
  else
    let hint := Language.normalizeHint o.language
    let results := files.map (analyzeFile registry hint)
    .ok ⟨o.root, revision, results, summarize results⟩

/-- The report of a scan. -/
def run (registry : Registry) (ws : Workspace) (o : ScanOptions) (interrupted : Bool) :
    Except ScanError Report := do
  let (files, revision) ← list ws o
  reportOn registry o files revision interrupted

end Scan

/-! ## The wire form -/

/-- A member for a text, unless that is empty. -/
def textMember (name : String) (text : Bytes) : List (String × Json) :=
  if text.isEmpty then [] else [(name, .str text)]

/-- The JSON form of the result of a file. -/
def FileResult.toJson (r : FileResult) : Json :=
  .record <|
    [("path", .str r.path)] ++ textMember "language" r.language ++
      (if r.merged then [("merged", .bool true)] else []) ++
      (match r.result with
        | some o => [("result", o.toJson)]
        | none => []) ++
      textMember "error" r.error

/-- The JSON form of the totals. -/
def Summary.toJson (s : Summary) : Json :=
  .record [("files", .int s.files), ("failed", .int s.failed), ("classes", .int s.classes),
    ("functions", .int s.functions), ("relationships", .int s.relationships)]

/-- The JSON form of a revision. -/
def Revision.toJson (r : Revision) : Json :=
  .record ([("commit", .str r.commit)] ++ textMember "branch" r.branch)

/-- The JSON form of a report. -/
def Report.toJson (r : Report) : Json :=
  .record <|
    [("root", .str r.root)] ++
      (match r.revision with
        | some rev => [("revision", rev.toJson)]
        | none => []) ++
      [("files", .arr (r.files.map (·.toJson))), ("summary", r.summary.toJson)]

end ClassOutline
