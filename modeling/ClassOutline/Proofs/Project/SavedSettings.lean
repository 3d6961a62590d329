import ClassOutline.Project
import ClassOutline.Proofs.Files.Trees
import ClassOutline.Proofs.Yaml.Values

/-!
# Settings that are saved and loaded again

Saving leaves out what is empty, and loading starts from the defaults. So settings come back with the
default in place of an empty list and of the number zero (`ProjectSettings.restored`). No default of
these is empty, and from then on the settings stay as they are (`ProjectSettings.load_of_save`).

That the text written for a value says this value when it is read is a matter of YAML alone and not of
settings. It stands here as a condition on the two values in question (`Json.isFaithful`); what the
reader makes of them, onto the defaults and with fields left out, is proved.
-/

namespace ClassOutline.ProjectSettings

open Bytes Yaml

variable {p : ProjectSettings} {root root' : Entry} {dir : Bytes}

/-! ## What comes back -/

/-- The settings with the defaults for the lists that are empty and for the numbers that are zero. -/
def restored (p : ProjectSettings) : ProjectSettings where
  version := p.version
  language := p.language
  included := if p.included.isEmpty then default.included else p.included
  excluded := if p.excluded.isEmpty then default.excluded else p.excluded
  scan :=
    { concurrency :=
        if p.scan.concurrency = 0 then default.scan.concurrency else p.scan.concurrency
      git := p.scan.git
      maxFileBytes :=
        if p.scan.maxFileBytes = 0 then default.scan.maxFileBytes else p.scan.maxFileBytes }

/-- Settings whose numbers have 64 bits, as those of a program have. -/
structure InRange (p : ProjectSettings) : Prop where
  concurrency : Number.fitsInt64 p.scan.concurrency = true
  maxFileBytes : Number.fitsInt64 p.scan.maxFileBytes = true

/-- No default is empty, so what comes back once comes back again. -/
theorem restored_restored (p : ProjectSettings) : p.restored.restored = p.restored := by
  have hlist (l d : List Bytes) (hd : d.isEmpty = false) :
      (if (if l.isEmpty then d else l).isEmpty then d else if l.isEmpty then d else l) =
        if l.isEmpty then d else l := by
    cases l with
    | nil => simp [hd]
    | cons x l => rfl
  have hnumber (n d : Int) (hd : d ≠ 0) :
      (if (if n = 0 then d else n) = 0 then d else if n = 0 then d else n) =
        if n = 0 then d else n := by
    by_cases hn : n = 0 <;> simp [hn, hd]
  unfold restored
  dsimp only
  rw [hlist p.included _ rfl, hlist p.excluded _ rfl, hnumber p.scan.concurrency _ (by decide),
    hnumber p.scan.maxFileBytes _ (by decide)]

theorem InRange.restored (h : p.InRange) : p.restored.InRange where
  concurrency := by
    unfold ProjectSettings.restored
    dsimp only
    split
    · rfl
    · exact h.concurrency
  maxFileBytes := by
    unfold ProjectSettings.restored
    dsimp only
    split
    · rfl
    · exact h.maxFileBytes

/-! ## The fields that are written -/

/-- The fields of the scan settings that are not empty. -/
def scanFields (s : ScanSettings) : List (String × Json) :=
  fieldUnless (s.concurrency = 0) "concurrency" (.int s.concurrency) ++
    fieldUnless (!s.git) "git" (.bool true) ++
    fieldUnless (s.maxFileBytes = 0) "max_file_bytes" (.int s.maxFileBytes)

/-- The version, and the other fields that are not empty. -/
def fields (p : ProjectSettings) : List (String × Json) :=
  [("version", .str p.version)] ++ fieldUnless p.language.isEmpty "language" (.str p.language) ++
    fieldUnless p.included.isEmpty "include" (.arr (p.included.map .str)) ++
    fieldUnless p.excluded.isEmpty "exclude" (.arr (p.excluded.map .str)) ++
    fieldUnless (scanFields p.scan).isEmpty "scan" (.record (scanFields p.scan))

theorem toJson_eq (p : ProjectSettings) : p.toJson = .record p.fields := rfl

theorem fieldNames_fieldUnless (isEmpty : Bool) (name : String) (value : Json) :
    (fieldNames (fieldUnless isEmpty name value)).Sublist [ofString name] := by
  cases isEmpty with
  | true => exact List.nil_sublist _
  | false => exact List.Sublist.refl _

theorem nodup_scanFields (s : ScanSettings) : (fieldNames (scanFields s)).Nodup := by
  have hall : (["concurrency", "git", "max_file_bytes"].map ofString).Nodup := by decide
  refine List.Nodup.sublist ?_ hall
  simp only [scanFields, fieldNames, List.map_append]
  exact ((fieldNames_fieldUnless ..).append (fieldNames_fieldUnless ..)).append
    (fieldNames_fieldUnless ..)

theorem nodup_fields (p : ProjectSettings) : (fieldNames p.fields).Nodup := by
  have hall : (["version", "language", "include", "exclude", "scan"].map ofString).Nodup := by decide
  refine List.Nodup.sublist ?_ hall
  simp only [fields, fieldNames, List.map_append]
  exact (((((List.Sublist.refl _).append (fieldNames_fieldUnless ..)).append
    (fieldNames_fieldUnless ..)).append (fieldNames_fieldUnless ..)).append
    (fieldNames_fieldUnless ..))

/-! ## Reading a field that is written unless it is empty -/

section

variable {α β : Type} {shape : Shape α} {name : String} {a b : α}

theorem yields_setField {read : Node → Reader (Option β)} {n : Node} {x : β}
    (h : (read n).Yields (some x)) (set : β → α → α) (a : α) :
    (setField read set n a).Yields (set x a) :=
  h.bind (Reader.yields_pure (set x a))

theorem sets_fieldUnless {isEmpty : Bool} {value : Json} {read : Node → α → Reader α}
    (field : shape.field? (ofString name) = some read) (hempty : isEmpty = true → a = b)
    (hfull : isEmpty = false → ∀ n, value.isSaidBy n = true → (read n a).Yields b) :
    shape.Sets (fieldUnless isEmpty name value) a b := by
  cases isEmpty with
  | true =>
    obtain rfl := hempty rfl
    exact .nil a
  | false => exact .cons field (hfull rfl) (.nil b)

theorem sets_text {set : Bytes → α → α}
    (field : shape.field? (ofString name) = some (setField Node.text? set)) (s : Bytes)
    (hset : set [] a = a) :
    shape.Sets (fieldUnless s.isEmpty name (.str s)) a (set s a) := by
  refine sets_fieldUnless field (fun hs => ?_) fun _ n hn => yields_setField (Node.yields_text? hn) set a
  rw [List.isEmpty_iff.mp hs, hset]

theorem sets_texts {set : List Bytes → α → α}
    (field : shape.field? (ofString name) = some (setField Node.texts? set)) (l d : List Bytes)
    (hset : set d a = a) :
    shape.Sets (fieldUnless l.isEmpty name (.arr (l.map .str))) a
      (set (if l.isEmpty then d else l) a) := by
  refine sets_fieldUnless field (fun hl => ?_) fun hl n hn => ?_
  · rw [if_pos hl, hset]
  · rw [if_neg (by rw [hl]; exact Bool.false_ne_true)]
    exact yields_setField (Node.yields_texts? hn) set a

theorem sets_number {wanted : String} {set : Int → α → α}
    (field : shape.field? (ofString name) = some (setField (Node.int? wanted) set)) {n : Int}
    (hn : Number.fitsInt64 n = true) {d : Int} (hset : set d a = a) :
    shape.Sets (fieldUnless (n = 0) name (.int n)) a (set (if n = 0 then d else n) a) := by
  refine sets_fieldUnless field (fun hzero => ?_) fun hzero node hnode => ?_
  · rw [if_pos (of_decide_eq_true hzero), hset]
  · rw [if_neg (of_decide_eq_false hzero)]
    exact yields_setField (Node.yields_int? hnode hn wanted) set a

theorem sets_switch {set : Bool → α → α}
    (field : shape.field? (ofString name) = some (setField Node.bool? set)) (on : Bool)
    (hset : set false a = a) :
    shape.Sets (fieldUnless (!on) name (.bool true)) a (set on a) := by
  refine sets_fieldUnless field (fun hoff => ?_) fun hon n hn => ?_
  · cases on with
    | false => exact hset.symm
    | true => cases hoff
  · cases on with
    | false => cases hon
    | true => exact yields_setField (Node.yields_bool? hn) set a

end

/-! ## Reading the settings -/

theorem scanFields_sets (h : p.InRange) :
    scanShape.Sets (scanFields p.scan) default.scan p.restored.scan := by
  have hmaxFileBytes := fun s : ScanSettings => (sets_number rfl h.maxFileBytes rfl :
    scanShape.Sets (fieldUnless (p.scan.maxFileBytes = 0) "max_file_bytes" (.int p.scan.maxFileBytes))
      { s with maxFileBytes := default.scan.maxFileBytes } _)
  exact ((sets_number rfl h.concurrency rfl).append (sets_switch rfl p.scan.git rfl)).append
    (hmaxFileBytes p.restored.scan)

theorem scan_sets (h : p.InRange) :
    ProjectSettings.shape.Sets
      (fieldUnless (scanFields p.scan).isEmpty "scan" (.record (scanFields p.scan)))
      { p.restored with scan := default.scan } p.restored := by
  -- the same chain says that all of it has its default where nothing is written
  have hscan := scanFields_sets h
  refine sets_fieldUnless rfl (fun hempty => ?_) fun _ n hn => ?_
  · rw [List.isEmpty_iff.mp hempty] at hscan
    rw [hscan.eq_of_nil]
  · exact (Node.yields_record hscan (nodup_scanFields p.scan) hn).bind (Reader.yields_pure _)

theorem fields_sets (h : p.InRange) : ProjectSettings.shape.Sets p.fields default p.restored := by
  have hversion : ProjectSettings.shape.Sets [("version", .str p.version)] default
      { default with version := p.version } :=
    .cons rfl (fun n hn => yields_setField (Node.yields_text? hn) _ _) (.nil _)
  -- each member changes one field of what those before it have made of the defaults
  exact (((hversion.append (sets_text rfl p.language rfl)).append
    (sets_texts rfl p.included default.included rfl)).append
    (sets_texts rfl p.excluded default.excluded rfl)).append (scan_sets h)

/-! ## Loading what was saved -/

theorem ofText_toText (h : p.InRange) (hp : p.toJson.isFaithful = true) :
    ofText p.toText = .ok p.restored := by
  unfold Json.isFaithful at hp
  split at hp
  next d hparse =>
    rw [toJson_eq] at hp
    have hread := Document.read_of_said (fields_sets h) (nodup_fields p) hp
    have htext : Yaml.parse p.toText = some (some d) := hparse
    rw [ofText, htext]
    dsimp only
    rw [hread]
  next => cases hp

theorem load_save (hsave : p.save root dir = .ok root') :
    load root' dir = (ofText p.toText).mapError (.unusable (Path.join dir fileName)) := by
  obtain ⟨place, hplace⟩ := Entry.locate_of_write hsave
  have hpresent : isAbsent root' (Path.join dir fileName) = false := by
    rw [isAbsent, Entry.lookup, hplace]
  rw [load, hpresent, Bool.not_false, if_pos rfl, ofFile, Entry.read_of_write hsave]

/-- What is saved is loaded again, with the defaults for what was empty, and saving that once more
changes nothing. -/
theorem load_of_save (h : p.InRange) (hp : p.toJson.isFaithful = true)
    (hrestored : p.restored.toJson.isFaithful = true) (hsave : p.save root dir = .ok root') :
    load root' dir = .ok p.restored ∧
      ∃ root'', p.restored.save root' dir = .ok root'' ∧ load root'' dir = .ok p.restored := by
  obtain ⟨root'', hagain⟩ := Entry.exists_write_of_write hsave p.restored.toText
  refine ⟨?_, root'', hagain, ?_⟩
  · rw [load_save hsave, ofText_toText h hp]
    rfl
  · rw [load_save hagain, ofText_toText h.restored hrestored, restored_restored]
    rfl

/-- Settings with an empty list and a zero, whose texts are written in quotes. -/
theorem load_of_save_partial :
    let p : ProjectSettings :=
      { version := ofString "2.0", language := ofString "yes", included := []
        excluded := [ofString "b"]
        scan := { concurrency := -3, git := true, maxFileBytes := 0 } }
    let restored : ProjectSettings :=
      { p with included := default.included, scan := { p.scan with maxFileBytes := 1048576 } }
    ∃ root' root'', p.save .empty [Path.slash] = .ok root' ∧
      load root' [Path.slash] = .ok restored ∧
      restored.save root' [Path.slash] = .ok root'' ∧ load root'' [Path.slash] = .ok restored := by
  intro p restored
  have hwrite (text : Bytes) : Entry.empty.write (Path.join [Path.slash] fileName) text =
      .ok (.dir [(fileName, .file text)]) := by cbv
  obtain ⟨hload, root'', hagain⟩ := load_of_save (p := p) ⟨by decide, by decide⟩ (by decide +kernel)
    (by decide +kernel) (hwrite p.toText)
  exact ⟨_, root'', hwrite p.toText, hload, hagain⟩

end ClassOutline.ProjectSettings
