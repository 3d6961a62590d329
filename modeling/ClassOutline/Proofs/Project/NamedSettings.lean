import ClassOutline.Project
import ClassOutline.Proofs.Yaml.Overlays

/-!
# What a settings file names

A settings file is read onto the defaults, and afterwards it does not show which settings the file
has a value for. `NamedSettings` is what the file says by itself: a value for each setting that it
names, and none for the others. Laid over the defaults this gives the settings of the directory
(`ProjectSettings.load_eq`).
-/

namespace ClassOutline

/-- The settings for reading files that a settings file has a value for. -/
structure NamedScanSettings where
  concurrency : Option Int := none
  git : Option Bool := none
  maxFileBytes : Option Int := none
deriving DecidableEq, Repr

/-- The settings that a settings file has a value for. -/
structure NamedSettings where
  version : Option Bytes := none
  language : Option Bytes := none
  included : Option (List Bytes) := none
  excluded : Option (List Bytes) := none
  scan : NamedScanSettings := {}
deriving DecidableEq, Repr

/-- Settings with the named ones in their place. -/
def NamedScanSettings.onto (s : ScanSettings) (n : NamedScanSettings) : ScanSettings where
  concurrency := n.concurrency.getD s.concurrency
  git := n.git.getD s.git
  maxFileBytes := n.maxFileBytes.getD s.maxFileBytes

namespace NamedSettings

open ProjectSettings (setField)

@[inherit_doc NamedScanSettings.onto]
def onto (p : ProjectSettings) (n : NamedSettings) : ProjectSettings where
  version := n.version.getD p.version
  language := n.language.getD p.language
  included := n.included.getD p.included
  excluded := n.excluded.getD p.excluded
  scan := n.scan.onto p.scan

/-! ## Reading -/

/-- The fields of the scan settings, each noted as named. -/
def scanShape : Yaml.Shape NamedScanSettings where
  name := ProjectSettings.scanShape.name
  field? name :=
    if name == Bytes.ofString "concurrency" then
      some (setField (Yaml.Node.int? "int") fun n s => { s with concurrency := some n })
    else if name == Bytes.ofString "git" then
      some (setField Yaml.Node.bool? fun b s => { s with git := some b })
    else if name == Bytes.ofString "max_file_bytes" then
      some (setField (Yaml.Node.int? "int64") fun n s => { s with maxFileBytes := some n })
    else none

/-- The fields of the project settings, each noted as named. -/
def shape : Yaml.Shape NamedSettings where
  name := ProjectSettings.shape.name
  field? name :=
    if name == Bytes.ofString "version" then
      some (setField Yaml.Node.text? fun t p => { p with version := some t })
    else if name == Bytes.ofString "language" then
      some (setField Yaml.Node.text? fun t p => { p with language := some t })
    else if name == Bytes.ofString "include" then
      some (setField Yaml.Node.texts? fun l p => { p with included := some l })
    else if name == Bytes.ofString "exclude" then
      some (setField Yaml.Node.texts? fun l p => { p with excluded := some l })
    else if name == Bytes.ofString "scan" then
      some fun n p => do
        let scan ← n.record scanShape p.scan
        return { p with scan }
    else none

/-- What a text names. -/
def ofText (text : Bytes) : Except ProjectSettings.TextFault NamedSettings :=
  match Yaml.parse text with
  | none => .error .malformed
  | some none => .ok {}
  | some (some document) =>
    match document.read shape {} with
    | none => .error .malformed
    | some (named, []) => .ok named
    | some (_, m :: ms) => .error (.mismatches (m :: ms))

/-- What a file names. -/
def ofFile (root : Entry) (path : Bytes) : Except ProjectSettings.LoadError NamedSettings :=
  match root.read path with
  | .error e => .error (.unreadable path e)
  | .ok text => (ofText text).mapError (.unusable path)

/-- What the settings file of a directory names; nothing where there is no such file. -/
def load (root : Entry) (dir : Bytes) : Except ProjectSettings.LoadError NamedSettings :=
  let path := Path.join dir ProjectSettings.fileName
  let other := Path.join dir ProjectSettings.otherFileName
  if !ProjectSettings.isAbsent root path then ofFile root path
  else if !ProjectSettings.isAbsent root other then ofFile root other
  else .ok {}

end NamedSettings

/-! ## Named settings laid over others -/

namespace ProjectSettings

open Yaml (Shape Document)

variable {α β γ : Type}

theorem setField_follows {f : β → α} {set : γ → α → α} {set' : γ → β → β}
    (h : ∀ c b, set c (f b) = f (set' c b)) (read : Yaml.Node → Yaml.Reader (Option γ))
    (n : Yaml.Node) (b : β) : setField read set n (f b) = f <$> setField read set' n b := by
  rw [setField, setField, map_bind]
  refine bind_congr fun c => ?_
  cases c with
  | none => rfl
  | some c =>
    rw [map_pure]
    exact congrArg pure (h c b)

theorem scanShape_follows (s : ScanSettings) :
    scanShape.Follows NamedSettings.scanShape (NamedScanSettings.onto s) where
  name_eq := rfl
  fields name := by
    rw [scanShape, NamedSettings.scanShape]
    dsimp only
    split
    · exact .some (setField_follows (by intros; rfl) _)
    split
    · exact .some (setField_follows (by intros; rfl) _)
    split
    · exact .some (setField_follows (by intros; rfl) _)
    · exact .none

theorem shape_follows (p : ProjectSettings) :
    shape.Follows NamedSettings.shape (NamedSettings.onto p) where
  name_eq := rfl
  fields name := by
    rw [shape, NamedSettings.shape]
    dsimp only
    split
    · exact .some (setField_follows (by intros; rfl) _)
    split
    · exact .some (setField_follows (by intros; rfl) _)
    split
    · exact .some (setField_follows (by intros; rfl) _)
    split
    · exact .some (setField_follows (by intros; rfl) _)
    split
    · refine .some fun n named => ?_
      have hscan : (named.onto p).scan = named.scan.onto p.scan := rfl
      rw [hscan, Yaml.Node.record_follows (scanShape_follows p.scan), bind_map_left, map_bind]
      rfl
    · exact .none

/-- The settings of a text are the defaults with what the text names in their place. -/
theorem ofText_eq (text : Bytes) :
    ofText text = (NamedSettings.ofText text).map (NamedSettings.onto default) := by
  rw [ofText, NamedSettings.ofText]
  cases Yaml.parse text with
  | none => rfl
  | some parsed =>
    cases parsed with
    | none => rfl
    | some document =>
      have hread := Document.read_follows (shape_follows default) document {}
      have hstart : NamedSettings.onto default {} = default := rfl
      rw [hstart] at hread
      dsimp only
      rw [hread]
      cases document.read NamedSettings.shape {} with
      | none => rfl
      | some out =>
        obtain ⟨named, _ | ⟨m, ms⟩⟩ := out <;> rfl

theorem ofFile_eq (root : Entry) (path : Bytes) :
    ofFile root path = (NamedSettings.ofFile root path).map (NamedSettings.onto default) := by
  rw [ofFile, NamedSettings.ofFile]
  cases root.read path with
  | error e => rfl
  | ok text =>
    dsimp only
    rw [ofText_eq]
    cases NamedSettings.ofText text <;> rfl

/-- The settings of a directory are the defaults with what its settings file names in their place. -/
theorem load_eq (root : Entry) (dir : Bytes) :
    load root dir = (NamedSettings.load root dir).map (NamedSettings.onto default) := by
  rw [load, NamedSettings.load, ofFile_eq, ofFile_eq]
  split
  · rfl
  split
  · rfl
  · rfl

end ProjectSettings

end ClassOutline
