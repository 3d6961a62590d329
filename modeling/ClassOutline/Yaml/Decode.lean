import ClassOutline.Text.Base64
import ClassOutline.Text.Quoted
import ClassOutline.Yaml.Node

/-!
# Values from a YAML document

Reading a document onto a record goes on after a value that does not fit: the value is left out, and
a `Mismatch` says where and why. Only a few faults end the reading at once: a standard tag that the
text contradicts, text in base64 that is none, an alias inside of what it stands for, a merge with
something that is no mapping, and a document that consists of almost nothing but aliases.

* `Node.text?`, `Node.int?`, `Node.bool?`, `Node.texts?`: the value of a node, or none in place of
  a null or a mismatch.
* `Node.record`: the entries of a mapping, read onto a record field by field.
* `Document.read`: the record that a document describes.
-/

namespace ClassOutline.Yaml

open Number

/-! ## Mismatches -/

/-- A place in a tree that does not fit what is read. -/
inductive Mismatch where
  /-- A node of another type, shown by its tag and text. -/
  | wrongType (line : Nat) (tag text : Bytes) (wanted : String)
  /-- A key that stands twice in a mapping. -/
  | repeatedKey (line : Nat) (key : Bytes) (firstLine : Nat)
  /-- A field that two different keys name. -/
  | repeatedField (line : Nat) (name : Bytes) (record : String)
deriving DecidableEq, Repr

/-- The text of a node as a mismatch shows it: in quotes, and cut where it is long. Behind the tag of
a collection it stands as it is. -/
def Mismatch.shown (tag text : Bytes) : Bytes :=
  if tag == Tag.seq || tag == Tag.map then text
  else
    let text := if 10 < text.length then text.take 7 ++ Bytes.ofString "..." else text
    Bytes.ofString " `" ++ text ++ Bytes.ofString "`"

/-- A mismatch in words. -/
def Mismatch.message : Mismatch → Bytes
  | .wrongType line tag text wanted =>
    Bytes.ofString "line " ++ Bytes.ofInt line ++ Bytes.ofString ": cannot unmarshal " ++ tag ++
      shown tag text ++ Bytes.ofString " into " ++ Bytes.ofString wanted
  | .repeatedKey line key firstLine =>
    Bytes.ofString "line " ++ Bytes.ofInt line ++ Bytes.ofString ": mapping key " ++ key.quoted ++
      Bytes.ofString " already defined at line " ++ Bytes.ofInt firstLine
  | .repeatedField line name record =>
    Bytes.ofString "line " ++ Bytes.ofInt line ++ Bytes.ofString ": field " ++ name ++
      Bytes.ofString " already set in type " ++ Bytes.ofString record

/-! ## Reading -/

/-- What a reading has come to. -/
structure Reading where
  /-- How many nodes were visited. -/
  visited : Nat := 0
  /-- How many of them were reached through an alias. -/
  aliased : Nat := 0
  /-- What did not fit. -/
  mismatches : List Mismatch := []
deriving DecidableEq, Repr

/-- Whether too much of what was visited was reached through aliases. A small document may consist
of them to 99 parts in a hundred, and the share falls evenly to ten in a hundred for large ones. -/
def Reading.isExcessive (r : Reading) : Bool :=
  100 < r.aliased && 1000 < r.visited &&
    if r.visited ≤ 400000 then 99 * r.visited < 100 * r.aliased
    else if 4000000 ≤ r.visited then r.visited < 10 * r.aliased
    else
      (99 * 3600000 - 89 * (r.visited - 400000)) * r.visited < 100 * 3600000 * r.aliased

/-- Where a reading is: in which document, and inside of which aliases. -/
structure Place where
  document : Document
  aliases : List Nat := []

/-- A step of a reading; none where the reading has to end. -/
abbrev Reader (α : Type) := ReaderT Place (StateT Reading Option) α

/-- Counts a node that is visited. -/
def visit : Reader Unit := do
  let place ← read
  let r ← get
  let aliased := if place.aliases.isEmpty then r.aliased else r.aliased + 1
  let r := { r with visited := r.visited + 1, aliased }
  guard (!r.isExcessive)
  set r

/-- Notes what does not fit. -/
def note (ms : List Mismatch) : Reader Unit :=
  modify fun r => { r with mismatches := r.mismatches ++ ms }

/-! ## Single values -/

namespace Node

/-- The tag of a node. An alias has none. -/
def tag : Node → Bytes
  | .scalar t _ _ | .sequence t _ _ | .mapping t _ _ => t
  | .alias _ _ _ _ => []

/-- The text by which keys are compared: that of a scalar, and the name of an alias. -/
def keyText : Node → Bytes
  | .scalar _ text _ => text
  | .alias name _ _ _ => name
  | _ => []

/-- Whether two nodes are keys of the same kind and text. -/
def sameKey (a b : Node) : Bool :=
  a.keyText == b.keyText &&
    match a, b with
    | .scalar .., .scalar .. | .sequence .., .sequence .. | .mapping .., .mapping ..
    | .alias .., .alias .. => true
    | _, _ => false

/-- Visits a node, or the one that an alias stands for. -/
def visited (n : Node) (k : Node → Reader α) : Reader α := do
  visit
  match n with
  | .alias _ number anchor _ =>
    let place ← read
    guard (!place.aliases.contains number)
    match place.document.target? anchor with
    | none => failure
    | some target =>
      withReader (fun p => { p with aliases := number :: p.aliases }) do
        visit
        k target
  | n => k n

/-- The mismatch of a node with a wanted type. -/
def mismatch (n : Node) (wanted : String) : Mismatch := .wrongType n.line n.tag n.keyText wanted

/-- The entries whose key stands in the mapping before. -/
def repeatedKeys : List (Node × Node) → List Mismatch
  | [] => []
  | (k, _) :: entries =>
    (entries.filter fun e => k.sameKey e.1).map
      (fun e => .repeatedKey e.1.line e.1.keyText k.line) ++ repeatedKeys entries

/-- A collection where a scalar is wanted. Repeated keys of a mapping are the graver fault. -/
def collectionMismatch (n : Node) (wanted : String) : List Mismatch :=
  match n with
  | .mapping _ entries _ =>
    let repeated := repeatedKeys entries
    if repeated.isEmpty then [n.mismatch wanted] else repeated
  | _ => [n.mismatch wanted]

/-- What a scalar stands for. Bytes in base64 are decoded; none where its tag contradicts it. -/
def value? (tag text : Bytes) : Option Value :=
  if tag == Tag.binary then (Base64.decode text).map .text else resolveTagged tag text

/-- Reads a scalar by a rule that may refuse it. A null gives nothing. -/
def scalar? (wanted : String) (rule : (tag text : Bytes) → Value → Option α) (n : Node) :
    Reader (Option α) :=
  n.visited fun n =>
    match n with
    | .scalar tag text _ =>
      match value? tag text with
      | none => failure
      | some .null => return none
      | some v =>
        match rule tag text v with
        | some a => return some a
        | none => do
          note [n.mismatch wanted]
          return none
    | n => do
      note (n.collectionMismatch wanted)
      return none

/-- A text: whatever a scalar says, except null. -/
def text? (n : Node) : Reader (Option Bytes) :=
  n.scalar? "string" fun tag text v =>
    match v with
    | .text s => if tag == Tag.binary then some s else some text
    | _ => some text

/-- An integer of 64 bits. Other numbers are cut after the point; one below the range counts as the
least integer, as two to the sixty-third does, and one above that is refused. -/
def int? (wanted : String) (n : Node) : Reader (Option Int) :=
  n.scalar? wanted fun _ _ v =>
    match v with
    | .int i => if i ≤ maxInt64 then some i else none
    | .float x =>
      let (num, den) := x.ratio
      if x == .nan || x == .infinite false then none
      else if x.isPositive && Nat.pow 2 63 * den < num then none
      else some x.truncate
    | _ => none

/-- The words for a truth value, besides those that stand for one by themselves. -/
def truthWord? (s : Bytes) : Option Bool :=
  let among (words : List String) : Bool := words.any fun w => Bytes.ofString w == s
  if among ["y", "Y", "yes", "Yes", "YES", "on", "On", "ON"] then some true
  else if among ["n", "N", "no", "No", "NO", "off", "Off", "OFF"] then some false
  else none

/-- A truth value. -/
def bool? (n : Node) : Reader (Option Bool) :=
  n.scalar? "bool" fun _ _ v =>
    match v with
    | .bool b => some b
    | .text s => truthWord? s
    | _ => none

/-- The texts of some nodes, without the nulls and the nodes that are no text. -/
def textItems : List Node → Reader (List Bytes)
  | [] => return []
  | n :: nodes => do
    let t ← n.text?
    let ts ← textItems nodes
    return t.toList ++ ts

/-- A list of texts. A null is the empty list. -/
def texts? (n : Node) : Reader (Option (List Bytes)) :=
  n.visited fun n =>
    match n with
    | .sequence _ items _ => some <$> textItems items
    | .scalar tag text _ =>
      match value? tag text with
      | none => failure
      | some .null => return some []
      | some _ => do
        note [n.mismatch "[]string"]
        return none
    | n => do
      note (n.collectionMismatch "[]string")
      return none

/-! ## Records -/

/-- A merge key: two less-than signs, plain or with the tag of merging. -/
def isMergeKey : Node → Bool
  | .scalar tag text _ => text == Bytes.ofString "<<" && tag == Tag.merge
  | _ => false

/-- The name that a key takes where mappings are merged: its text, if it stands for a text. A
collection takes none; one that is no value of its own ends the reading. -/
def takenName? (n : Node) : Reader (Option Bytes) :=
  n.visited fun n =>
    match n with
    | .scalar tag text _ =>
      match value? tag text with
      | none => failure
      | some (.text s) => return some s
      | some _ => return none
    | .mapping _ entries _ => do
      let repeated := repeatedKeys entries
      guard (!repeated.isEmpty)
      note repeated
      return none
    | _ => failure

end Node

/-- A record that a mapping can set: its name in messages, and how the value of a field is read
onto it. A name that is no field gives none. -/
structure Shape (α : Type) where
  name : String
  field? : Bytes → Option (Node → α → Reader α)

/-- A record while it is read, and, where mappings are merged, the names that are taken already. -/
structure Draft (α : Type) where
  record : α
  taken : Option (List Bytes) := none

/-- Reads the entries of a mapping onto a record, except merge keys. A name that is taken is left
out, and so is a field that the mapping has set before (`done`). -/
def Draft.entries (shape : Shape α) :
    (done : List Bytes) → List (Node × Node) → Draft α → Reader (Draft α)
  | _, [], d => return d
  | done, (key, value) :: rest, d =>
    if key.isMergeKey then d.entries shape done rest
    else do
      match ← key.text? with
      | none => d.entries shape done rest
      | some name =>
        if d.taken.any fun names => names.contains name then d.entries shape done rest
        else
          let d := { d with taken := d.taken.map fun names => name :: names }
          match shape.field? name with
          | none => d.entries shape done rest
          | some read =>
            if done.contains name then
              note [.repeatedField key.line name shape.name]
              d.entries shape done rest
            else
              let record ← read value d.record
              Draft.entries shape (name :: done) rest { d with record }

/-- The names that the keys of a mapping take. -/
def takenNames : List (Node × Node) → Reader (List Bytes)
  | [] => return []
  | (key, _) :: rest => do
    let name ← key.takenName?
    let names ← takenNames rest
    return name.toList ++ names

/-- The value of the merge key of a mapping. -/
def mergeValue? (entries : List (Node × Node)) : Option Node :=
  (entries.find? fun e => e.1.isMergeKey).map Prod.snd

/-- The mappings that a merge key brings in: one, or a list of them, each perhaps by an alias. -/
def mergeSources (d : Document) (value : Node) : Option (List Node) :=
  let isMapping : Node → Bool
    | .mapping _ _ _ => true
    | .alias _ _ anchor _ =>
      match d.target? anchor with
      | some (.mapping _ _ _) => true
      | _ => false
    | _ => false
  let sources : List Node :=
    match value with
    | .sequence _ items _ => items
    | n => [n]
  if sources.all isMapping then some sources else none

/-- Reads a node onto a record, through at most `fuel` merges inside one another. -/
def Draft.onto (shape : Shape α) : (fuel : Nat) → Node → Draft α → Reader (Draft α)
  | 0, _, _ => failure
  | fuel + 1, n, d =>
    n.visited fun n =>
      match n with
      | .mapping _ entries _ => do
        let repeated := Node.repeatedKeys entries
        if !repeated.isEmpty then
          note repeated
          return d
        let d ← d.entries shape [] entries
        match mergeValue? entries with
        | none => return d
        | some value =>
          let place ← read
          match mergeSources place.document value with
          | none => failure
          | some sources =>
            let taken ←
              match d.taken with
              | some names => pure names
              | none => takenNames entries
            let merged ←
              sources.foldlM (fun d n => Draft.onto shape fuel n d) { d with taken := some taken }
            return { merged with taken := d.taken.bind fun _ => merged.taken }
      | .scalar tag text _ =>
        match Node.value? tag text with
        | none => failure
        | some .null => return d
        | some _ => do
          note [n.mismatch shape.name]
          return d
      | n => do
        note (n.collectionMismatch shape.name)
        return d

/-- Reads a node onto a record. Keys that name no field are left out. The entries of a mapping
under a merge key count after the entries around it, and only for names not taken yet. -/
def Node.record (shape : Shape α) (n : Node) (a : α) : Reader α := do
  let place ← read
  let fuel := (place.document.aliases + 1) * (place.document.size + 1)
  let d ← Draft.onto shape fuel n { record := a }
  return d.record

/-- The record that a document describes, read onto a given one, and what did not fit; none where
the reading had to end. -/
def Document.read (shape : Shape α) (d : Document) (a : α) : Option (α × List Mismatch) :=
  let reading : Reader α := do
    visit
    d.root.record shape a
  (reading { document := d } {}).map fun r => (r.1, r.2.mismatches)

end ClassOutline.Yaml
