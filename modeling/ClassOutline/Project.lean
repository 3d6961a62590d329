import ClassOutline.Files.Tree
import ClassOutline.Yaml.Decode
import ClassOutline.Yaml.Writer

/-!
# Project settings

A repository can carry a file with settings for its scans. The file is YAML and is read onto the
defaults, so a setting that it does not name keeps its default value. Saving writes what differs
from an empty setting, and always the version.

* `ProjectSettings.load`: the settings of a directory.
* `ProjectSettings.save`: the tree with the settings written into a directory.
* `ProjectSettings.override`: settings with others laid over them.
-/

namespace ClassOutline

/-- Settings for reading the files of a scan. -/
structure ScanSettings where
  /-- How many files are analyzed at a time. -/
  concurrency : Int
  /-- Whether the last commit is read in place of the working tree. -/
  git : Bool
  /-- The size above which a file is left out. -/
  maxFileBytes : Int
deriving DecidableEq, Repr

/-- The settings of a project. -/
structure ProjectSettings where
  version : Bytes
  /-- A language for every file; none is told where this is empty. -/
  language : Bytes
  /-- Patterns for the names of the files to scan. -/
  included : List Bytes
  /-- Lines that exclude files, as in an ignore file. -/
  excluded : List Bytes
  scan : ScanSettings
deriving DecidableEq, Repr

namespace ProjectSettings

/-- The settings of a project that says nothing. -/
def default : ProjectSettings where
  version := Bytes.ofString "1.0"
  language := []
  included := ["*.java", "*.php", "*.py"].map Bytes.ofString
  excluded := ["vendor", "node_modules", "__pycache__", "target", "build"].map Bytes.ofString
  scan := { concurrency := 4, git := false, maxFileBytes := 1048576 }

/-- Settings with others laid over them: what is not empty there counts. The version stays. -/
def override (base other : ProjectSettings) : ProjectSettings where
  version := base.version
  language := if other.language.isEmpty then base.language else other.language
  included := if other.included.isEmpty then base.included else other.included
  excluded := if other.excluded.isEmpty then base.excluded else other.excluded
  scan :=
    { concurrency :=
        if other.scan.concurrency = 0 then base.scan.concurrency else other.scan.concurrency
      git := base.scan.git || other.scan.git
      maxFileBytes :=
        if other.scan.maxFileBytes = 0 then base.scan.maxFileBytes else other.scan.maxFileBytes }

/-! ## Reading -/

/-- A field that keeps its value where the file has none for it. -/
def setField (read : Yaml.Node → Yaml.Reader (Option β)) (set : β → α → α) :
    Yaml.Node → α → Yaml.Reader α := fun n a => do
  let b ← read n
  return (b.map fun b => set b a).getD a

/-- The fields of the scan settings. -/
def scanShape : Yaml.Shape ScanSettings where
  name := "config.ScanConfig"
  field? name :=
    if name == Bytes.ofString "concurrency" then
      some (setField (Yaml.Node.int? "int") fun n s => { s with concurrency := n })
    else if name == Bytes.ofString "git" then
      some (setField Yaml.Node.bool? fun b s => { s with git := b })
    else if name == Bytes.ofString "max_file_bytes" then
      some (setField (Yaml.Node.int? "int64") fun n s => { s with maxFileBytes := n })
    else none

/-- The fields of the project settings. -/
def shape : Yaml.Shape ProjectSettings where
  name := "config.ProjectConfig"
  field? name :=
    if name == Bytes.ofString "version" then
      some (setField Yaml.Node.text? fun t p => { p with version := t })
    else if name == Bytes.ofString "language" then
      some (setField Yaml.Node.text? fun t p => { p with language := t })
    else if name == Bytes.ofString "include" then
      some (setField Yaml.Node.texts? fun l p => { p with included := l })
    else if name == Bytes.ofString "exclude" then
      some (setField Yaml.Node.texts? fun l p => { p with excluded := l })
    else if name == Bytes.ofString "scan" then
      some fun n p => do
        let scan ← n.record scanShape p.scan
        return { p with scan }
    else none

/-- Why a text holds no settings. -/
inductive TextFault where
  /-- The text is no YAML, or contradicts itself. -/
  | malformed
  /-- Values have the wrong type, or keys stand twice. -/
  | mismatches (all : List Yaml.Mismatch)
deriving DecidableEq, Repr

/-- The fault in words. -/
def TextFault.message : TextFault → Bytes
  | .malformed => Bytes.ofString "yaml: *"
  | .mismatches all =>
    Bytes.ofString "yaml: unmarshal errors:" ++
      all.flatMap fun m => Bytes.ofString "\n  " ++ m.message

/-- The settings of a text, read onto the defaults. -/
def ofText (text : Bytes) : Except TextFault ProjectSettings :=
  match Yaml.parse text with
  | none => .error .malformed
  | some none => .ok default
  | some (some document) =>
    match document.read shape default with
    | none => .error .malformed
    | some (settings, []) => .ok settings
    | some (_, m :: ms) => .error (.mismatches (m :: ms))

/-! ## Writing -/

/-- A field, unless its value is empty. -/
def fieldUnless (isEmpty : Bool) (name : String) (value : Json) : List (String × Json) :=
  if isEmpty then [] else [(name, value)]

/-- The settings as a value, without what is empty. -/
def toJson (p : ProjectSettings) : Json :=
  let scan :=
    fieldUnless (p.scan.concurrency = 0) "concurrency" (.int p.scan.concurrency) ++
      fieldUnless (!p.scan.git) "git" (.bool true) ++
      fieldUnless (p.scan.maxFileBytes = 0) "max_file_bytes" (.int p.scan.maxFileBytes)
  .record <|
    [("version", .str p.version)] ++
      fieldUnless p.language.isEmpty "language" (.str p.language) ++
      fieldUnless p.included.isEmpty "include" (.arr (p.included.map .str)) ++
      fieldUnless p.excluded.isEmpty "exclude" (.arr (p.excluded.map .str)) ++
      fieldUnless scan.isEmpty "scan" (.record scan)

/-- The text of the settings. -/
def toText (p : ProjectSettings) : Bytes := Yaml.write 4 p.toJson

/-! ## Files -/

/-- The name of the settings file. -/
def fileName : Bytes := Bytes.ofString ".umlparse.yaml"

/-- The name that is tried where there is no file of the first. -/
def otherFileName : Bytes := Bytes.ofString ".umlparse.yml"

/-- Why the settings of a directory cannot be had. -/
inductive LoadError where
  | unreadable (path : Bytes) (cause : FileError)
  | unusable (path : Bytes) (cause : TextFault)
deriving DecidableEq, Repr

/-- The error in words. -/
def LoadError.message : LoadError → Bytes
  | .unreadable path cause =>
    Bytes.ofString "failed to read " ++ path ++ Bytes.ofString ": " ++ cause.message
  | .unusable path cause =>
    Bytes.ofString "failed to parse " ++ path ++ Bytes.ofString ": " ++ cause.message

/-- Whether there is certainly nothing at a path. -/
def isAbsent (root : Entry) (path : Bytes) : Bool :=
  match root.lookup true path with
  | .error .missing => true
  | _ => false

/-- The settings in a file. -/
def ofFile (root : Entry) (path : Bytes) : Except LoadError ProjectSettings :=
  match root.read path with
  | .error e => .error (.unreadable path e)
  | .ok text => (ofText text).mapError (.unusable path)

/-- The settings of a directory: the defaults where it has no settings file. -/
def load (root : Entry) (dir : Bytes) : Except LoadError ProjectSettings :=
  let path := Path.join dir fileName
  let other := Path.join dir otherFileName
  if !isAbsent root path then ofFile root path
  else if !isAbsent root other then ofFile root other
  else .ok default

/-- The tree with the settings written into a directory. -/
def save (p : ProjectSettings) (root : Entry) (dir : Bytes) : Except FileError Entry :=
  root.write (Path.join dir fileName) p.toText

end ProjectSettings

end ClassOutline
