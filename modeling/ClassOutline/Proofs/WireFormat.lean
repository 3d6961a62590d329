import ClassOutline.Cli.Session
import ClassOutline.Http.Response
import ClassOutline.Proofs.Json.Decoding
import ClassOutline.Scan.Report

/-!
# The wire format loses nothing

An envelope or a report leaves the program as a JSON document, in the body of an answer or on the
standard output. Its reader knows the declared names of the fields and nothing else. Where every text
is in UTF-8, the reader gets the value back (`wire_lossless`).

Three things are said of the document. It is one JSON value and a newline behind it. A decoder that
goes by the declared names (`Envelope.ofJson?`, `Report.ofJson?`) turns that value into the envelope
or the report it was made of. And a field without a value stands in it as it is declared to: as null,
as a value like any other, or not at all (`Envelope.WrittenAs`, `Report.WrittenAs`). A text that may
be absent is null where it is and a string where it is empty; a text of a scanned file that is empty
is left out, and so is the flag that says no.

Each of the three has its own lemma for every kind of record, and the lemma for a record is made of
those for its parts: `read_document` and `inUtf8_toJson` for the text, `ofJson?_toJson` for the values,
`writtenAs_toJson` for the members.
-/

namespace ClassOutline

open Bytes
open Json (Readable Inverts Standing Lists Holds fields? text? flag? count? optional? list? written)

/-! ## Texts -/

/-- The texts of an attribute. -/
def Attribute.texts (a : Attribute) : List Bytes := [a.name, a.type, a.visibility]

/-- The texts of a method. -/
def Method.texts (m : Method) : List Bytes := [m.name, m.params, m.returns, m.visibility]

/-- The texts of a class. -/
def ClassInfo.texts (c : ClassInfo) : List Bytes :=
  c.name :: (c.attributes.flatMap (·.texts) ++ c.methods.flatMap (·.texts) ++ c.parent.toList ++
    c.interfaces)

/-- The texts of a function. -/
def FunctionInfo.texts (f : FunctionInfo) : List Bytes := [f.name, f.params, f.returns]

/-- The texts of an edge. -/
def Edge.texts (e : Edge) : List Bytes := [e.source, e.target, e.kind]

/-- The texts of an outline. -/
def Outline.texts (o : Outline) : List Bytes :=
  o.classes.flatMap (·.texts) ++ o.functions.flatMap (·.texts) ++ o.edges.flatMap (·.texts)

/-- The texts of an envelope. -/
def Envelope.texts (e : Envelope) : List Bytes :=
  e.message :: (e.result.toList.flatMap (·.texts) ++ e.language.toList ++ e.filename.toList)

/-- The texts of a revision. -/
def Revision.texts (r : Revision) : List Bytes := [r.commit, r.branch]

/-- The texts of the result of a file. -/
def FileResult.texts (r : FileResult) : List Bytes :=
  r.path :: r.language :: (r.result.toList.flatMap (·.texts) ++ [r.error])

/-- The texts of a report. -/
def Report.texts (r : Report) : List Bytes :=
  r.root :: (r.revision.toList.flatMap (·.texts) ++ r.files.flatMap (·.texts))

/-! ## Reports as records -/

/-- The member for a text that is left out while it is empty. -/
def textMember? (s : Bytes) : Option Json := (Envelope.nonEmpty? s).map .str

theorem textMember_eq_written (name : String) (s : Bytes) :
    textMember name s = written [(name, textMember? s)] := by
  cases s with
  | nil => rfl
  | cons b s => rfl

theorem FileResult.toJson_eq (r : FileResult) : r.toJson = .record (written
    [("path", some (.str r.path)), ("language", textMember? r.language),
      ("merged", if r.merged then some (.bool true) else none),
      ("result", r.result.map Outline.toJson), ("error", textMember? r.error)]) := by
  rw [toJson, textMember_eq_written, textMember_eq_written]
  -- with the two choices made, both sides are the same list of members
  cases r.merged <;> cases r.result <;> simp [written]

theorem Revision.toJson_eq (r : Revision) : r.toJson = .record (written
    [("commit", some (.str r.commit)), ("branch", textMember? r.branch)]) := by
  rw [toJson, textMember_eq_written]
  simp [written]

theorem Report.toJson_eq (r : Report) : r.toJson = .record (written
    [("root", some (.str r.root)), ("revision", r.revision.map Revision.toJson),
      ("files", some (.arr (r.files.map FileResult.toJson))),
      ("summary", some r.summary.toJson)]) := by
  rw [toJson]
  cases r.revision <;> simp [written]

/-! ## The texts of a document

The texts of a value are in UTF-8 exactly if those of its document are, so the lists above miss none.
-/

@[simp] theorem Attribute.inUtf8_toJson (a : Attribute) :
    InUtf8 a.toJson.texts ↔ InUtf8 a.texts := by
  simp [toJson, texts]

@[simp] theorem Method.inUtf8_toJson (m : Method) : InUtf8 m.toJson.texts ↔ InUtf8 m.texts := by
  simp [toJson, texts]

@[simp] theorem ClassInfo.inUtf8_toJson (c : ClassInfo) :
    InUtf8 c.toJson.texts ↔ InUtf8 c.texts := by
  simp [toJson, texts]

@[simp] theorem FunctionInfo.inUtf8_toJson (f : FunctionInfo) :
    InUtf8 f.toJson.texts ↔ InUtf8 f.texts := by
  simp [toJson, texts]

@[simp] theorem Edge.inUtf8_toJson (e : Edge) : InUtf8 e.toJson.texts ↔ InUtf8 e.texts := by
  simp [toJson, texts]

@[simp] theorem Outline.inUtf8_toJson (o : Outline) : InUtf8 o.toJson.texts ↔ InUtf8 o.texts := by
  simp [toJson, texts]

theorem Envelope.inUtf8_toJson (e : Envelope) : InUtf8 e.toJson.texts ↔ InUtf8 e.texts := by
  cases hresult : e.result with
  | none => simp [toJson, texts, hresult]
  | some o => simp [toJson, texts, hresult]

@[simp] theorem inUtf8_textMember? (s : Bytes) :
    (∀ j, textMember? s = some j → InUtf8 j.texts) ↔ s.isUtf8 = true := by
  cases s with
  | nil => simp [textMember?, Envelope.nonEmpty?, isUtf8]
  | cons b s => simp [textMember?, Envelope.nonEmpty?]

@[simp] theorem Revision.inUtf8_toJson (r : Revision) :
    InUtf8 r.toJson.texts ↔ InUtf8 r.texts := by
  rw [toJson_eq, Json.inUtf8_written]
  simp [texts]

@[simp] theorem FileResult.inUtf8_toJson (r : FileResult) :
    InUtf8 r.toJson.texts ↔ InUtf8 r.texts := by
  rw [toJson_eq, Json.inUtf8_written]
  cases r.merged with
  | false => simp [texts]
  | true => simp [texts]

theorem Report.inUtf8_toJson (r : Report) : InUtf8 r.toJson.texts ↔ InUtf8 r.texts := by
  rw [toJson_eq, Json.inUtf8_written]
  simp [texts, Summary.toJson]

/-! ## Documents of reports -/

section

variable {depth : Nat}

theorem readable_textMember? (s : Bytes) : ∀ j ∈ textMember? s, Readable depth j.toUtf8 := by
  intro j hj
  obtain ⟨u, -, rfl⟩ := Option.map_eq_some_iff.mp hj
  exact .toUtf8_str u

theorem Summary.readable_toJson (s : Summary) : Readable (depth + 1) s.toJson.toUtf8 := by
  -- a number is no text, so nothing is replaced in it
  have hcount : ∀ n : Nat, Readable depth (Json.int n).toUtf8 :=
    fun n => .num (Json.isNumeral_count n)
  rw [toJson, Json.toUtf8_record]
  apply Readable.record
  simp only [List.map_cons, List.map_nil, List.forall_mem_cons]
  exact ⟨hcount _, hcount _, hcount _, hcount _, hcount _, by simp⟩

theorem Revision.readable_toJson (r : Revision) : Readable (depth + 1) r.toJson.toUtf8 := by
  rw [toJson_eq]
  apply Readable.toUtf8_written
  simp only [List.forall_mem_cons, Option.mem_some_iff, forall_eq']
  exact ⟨.toUtf8_str _, readable_textMember? _, by simp⟩

theorem FileResult.readable_toJson (r : FileResult) : Readable (depth + 6) r.toJson.toUtf8 := by
  have hmerged : ∀ j ∈ (if r.merged then some (Json.bool true) else none),
      Readable (depth + 5) j.toUtf8 := by
    intro j hj
    split at hj
    · rw [← Option.mem_some_iff.mp hj]
      exact .bool true
    · cases hj
  rw [toJson_eq]
  apply Readable.toUtf8_written
  simp only [List.forall_mem_cons, Option.mem_some_iff, forall_eq', Option.forall_mem_map]
  exact ⟨.toUtf8_str _, readable_textMember? _, hmerged, fun o _ => o.readable_toJson,
    readable_textMember? _, by simp⟩

theorem Report.readable_toJson (r : Report) : Readable (depth + 8) r.toJson.toUtf8 := by
  rw [toJson_eq]
  apply Readable.toUtf8_written
  simp only [List.forall_mem_cons, Option.mem_some_iff, forall_eq', Option.forall_mem_map,
    Json.toUtf8_arr]
  exact ⟨.toUtf8_str _, fun rev _ => rev.readable_toJson, .map FileResult.readable_toJson _,
    r.summary.readable_toJson, by simp⟩

end

/-- The document of a report is read as the report, with its strings in UTF-8. -/
theorem Report.read_document (r : Report) :
    Json.read r.toJson.document = .ok (r.toJson.toUtf8, [10]) :=
  Json.read_document_toUtf8 (@readable_toJson 9992 r)

/-! ## Decoders by the declared names -/

/-- The attribute that an object stands for. -/
def Attribute.ofJson? (j : Json) : Option Attribute := do
  let field ← fields? j
  return ⟨← text? (field "name"), ← text? (field "type"), ← text? (field "visibility")⟩

/-- The method that an object stands for. -/
def Method.ofJson? (j : Json) : Option Method := do
  let field ← fields? j
  return ⟨← text? (field "name"), ← text? (field "params"), ← text? (field "returns"),
    ← text? (field "visibility")⟩

/-- The class that an object stands for. -/
def ClassInfo.ofJson? (j : Json) : Option ClassInfo := do
  let field ← fields? j
  return ⟨← text? (field "name"), ← list? Attribute.ofJson? (field "attributes"),
    ← list? Method.ofJson? (field "methods"), ← optional? text? (field "extends"),
    ← list? text? (field "implements")⟩

/-- The function that an object stands for. -/
def FunctionInfo.ofJson? (j : Json) : Option FunctionInfo := do
  let field ← fields? j
  return ⟨← text? (field "name"), ← text? (field "params"), ← text? (field "returns")⟩

/-- The edge that an object stands for. -/
def Edge.ofJson? (j : Json) : Option Edge := do
  let field ← fields? j
  return ⟨← text? (field "from"), ← text? (field "to"), ← text? (field "type")⟩

/-- The outline that an object stands for. -/
def Outline.ofJson? (j : Json) : Option Outline := do
  let field ← fields? j
  return ⟨← list? ClassInfo.ofJson? (field "classes"),
    ← list? FunctionInfo.ofJson? (field "functions"),
    ← list? Edge.ofJson? (field "relationships")⟩

/-- The envelope that an object stands for. -/
def Envelope.ofJson? (j : Json) : Option Envelope := do
  let field ← fields? j
  return ⟨← flag? (field "success"), ← text? (field "message"),
    ← optional? Outline.ofJson? (field "result"), ← optional? text? (field "languageDetected"),
    ← optional? text? (field "filename")⟩

/-- The revision that an object stands for. -/
def Revision.ofJson? (j : Json) : Option Revision := do
  let field ← fields? j
  return ⟨← text? (field "commit"), ← text? (field "branch")⟩

/-- The totals that an object stands for. -/
def Summary.ofJson? (j : Json) : Option Summary := do
  let field ← fields? j
  return ⟨← count? (field "files"), ← count? (field "failed"), ← count? (field "classes"),
    ← count? (field "functions"), ← count? (field "relationships")⟩

/-- The result of a file that an object stands for. -/
def FileResult.ofJson? (j : Json) : Option FileResult := do
  let field ← fields? j
  return ⟨← text? (field "path"), ← text? (field "language"), ← flag? (field "merged"),
    ← optional? Outline.ofJson? (field "result"), ← text? (field "error")⟩

/-- The report that an object stands for. -/
def Report.ofJson? (j : Json) : Option Report := do
  let field ← fields? j
  return ⟨← text? (field "root"), ← optional? Revision.ofJson? (field "revision"),
    ← list? FileResult.ofJson? (field "files"), ← Summary.ofJson? (field "summary")⟩

/-! ## Decoders undo the writers -/

theorem text?_inverts_str : Inverts text? Json.str := fun _ => rfl

theorem Attribute.ofJson?_toJson : Inverts Attribute.ofJson? Attribute.toJson := by
  intro a
  simp [ofJson?, toJson, Json.fields?_record]

theorem Method.ofJson?_toJson : Inverts Method.ofJson? Method.toJson := by
  intro m
  simp [ofJson?, toJson, Json.fields?_record]

theorem ClassInfo.ofJson?_toJson : Inverts ClassInfo.ofJson? ClassInfo.toJson := by
  intro c
  have hattributes := Attribute.ofJson?_toJson.list c.attributes
  have hmethods := Method.ofJson?_toJson.list c.methods
  have hparent := Json.optional?_strOrNull c.parent
  have hinterfaces := text?_inverts_str.list c.interfaces
  simp [ofJson?, toJson, Json.fields?_record, hattributes, hmethods, hparent, hinterfaces]

theorem FunctionInfo.ofJson?_toJson : Inverts FunctionInfo.ofJson? FunctionInfo.toJson := by
  intro f
  simp [ofJson?, toJson, Json.fields?_record]

theorem Edge.ofJson?_toJson : Inverts Edge.ofJson? Edge.toJson := by
  intro e
  simp [ofJson?, toJson, Json.fields?_record]

theorem Outline.ofJson?_toJson : Inverts Outline.ofJson? Outline.toJson := by
  intro o
  have hclasses := ClassInfo.ofJson?_toJson.list o.classes
  have hfunctions := FunctionInfo.ofJson?_toJson.list o.functions
  have hedges := Edge.ofJson?_toJson.list o.edges
  simp [ofJson?, toJson, Json.fields?_record, hclasses, hfunctions, hedges]

/-- An outline is an object even where it is empty, so null is free to say that there is none. -/
theorem Outline.toJson_ne_null (o : Outline) : o.toJson ≠ .null := nofun

theorem Revision.toJson_ne_null (r : Revision) : r.toJson ≠ .null := nofun

theorem Envelope.ofJson?_toJson : Inverts Envelope.ofJson? Envelope.toJson := by
  intro e
  have hresult := Outline.ofJson?_toJson.optional Outline.toJson_ne_null e.result
  have hlanguage := Json.optional?_strOrNull e.language
  have hfilename := Json.optional?_strOrNull e.filename
  simp [ofJson?, toJson, Json.fields?_record, hresult, hlanguage, hfilename]

theorem Summary.ofJson?_toJson : Inverts Summary.ofJson? Summary.toJson := by
  intro s
  simp [ofJson?, toJson, Json.fields?_record]

/-- A text that is left out is read as the empty one, and only the empty one is left out. -/
theorem text?_textMember? (s : Bytes) : text? ((textMember? s).getD .null) = some s := by
  cases s with
  | nil => rfl
  | cons b s => rfl

theorem Revision.ofJson?_toJson : Inverts Revision.ofJson? Revision.toJson := by
  intro r
  have hbranch := text?_textMember? r.branch
  rw [ofJson?, toJson_eq, Json.fields?_written (by simp)]
  simp [hbranch]

theorem FileResult.ofJson?_toJson : Inverts FileResult.ofJson? FileResult.toJson := by
  intro r
  have hlanguage := text?_textMember? r.language
  -- the flag is there to say yes, and no is what its absence says
  have hmerged : flag? ((if r.merged then some (Json.bool true) else none).getD .null) =
      some r.merged := by
    cases r.merged with
    | false => rfl
    | true => rfl
  have hresult := Outline.ofJson?_toJson.optional Outline.toJson_ne_null r.result
  have herror := text?_textMember? r.error
  rw [ofJson?, toJson_eq, Json.fields?_written (by simp)]
  simp [hlanguage, hmerged, hresult, herror]

theorem Report.ofJson?_toJson : Inverts Report.ofJson? Report.toJson := by
  intro r
  have hrevision := Revision.ofJson?_toJson.optional Revision.toJson_ne_null r.revision
  have hfiles := FileResult.ofJson?_toJson.list r.files
  have hsummary := Summary.ofJson?_toJson r.summary
  rw [ofJson?, toJson_eq, Json.fields?_written (by simp)]
  simp [hrevision, hfiles, hsummary]

/-! ## The members that are written -/

/-- How an attribute is written. -/
def Attribute.WrittenAs (_ : Attribute) (j : Json) : Prop :=
  j.Follows [("name", .value), ("type", .value), ("visibility", .value)]

/-- How a method is written. -/
def Method.WrittenAs (_ : Method) (j : Json) : Prop :=
  j.Follows [("name", .value), ("params", .value), ("returns", .value), ("visibility", .value)]

/-- How a function is written. -/
def FunctionInfo.WrittenAs (_ : FunctionInfo) (j : Json) : Prop :=
  j.Follows [("name", .value), ("params", .value), ("returns", .value)]

/-- How an edge is written. -/
def Edge.WrittenAs (_ : Edge) (j : Json) : Prop :=
  j.Follows [("from", .value), ("to", .value), ("type", .value)]

/-- How a class is written: only its parent can be null. -/
structure ClassInfo.WrittenAs (c : ClassInfo) (j : Json) : Prop where
  members : j.Follows [("name", .value), ("attributes", .value), ("methods", .value),
    ("extends", .nullable c.parent.isSome), ("implements", .value)]
  attributes : Lists Attribute.WrittenAs c.attributes j "attributes"
  methods : Lists Method.WrittenAs c.methods j "methods"
  interfaces : Lists (fun i item => item = .str i) c.interfaces j "implements"

/-- How an outline is written: three lists, each there also where it is empty. -/
structure Outline.WrittenAs (o : Outline) (j : Json) : Prop where
  members : j.Follows [("classes", .value), ("functions", .value), ("relationships", .value)]
  classes : Lists ClassInfo.WrittenAs o.classes j "classes"
  functions : Lists FunctionInfo.WrittenAs o.functions j "functions"
  edges : Lists Edge.WrittenAs o.edges j "relationships"

/-- How an envelope is written: every member is there, and null stands for what is absent. -/
structure Envelope.WrittenAs (e : Envelope) (j : Json) : Prop where
  members : j.Follows [("success", .value), ("message", .value),
    ("result", .nullable e.result.isSome), ("languageDetected", .nullable e.language.isSome),
    ("filename", .nullable e.filename.isSome)]
  result : Holds Outline.WrittenAs e.result j "result"

/-- How a revision is written: a branch without a name is left out. -/
def Revision.WrittenAs (r : Revision) (j : Json) : Prop :=
  j.Follows [("commit", .value), ("branch", .omittable !r.branch.isEmpty)]

/-- How totals are written: a zero is written like any other count. -/
def Summary.WrittenAs (_ : Summary) (j : Json) : Prop :=
  j.Follows [("files", .value), ("failed", .value), ("classes", .value), ("functions", .value),
    ("relationships", .value)]

/-- How the result of a file is written: what is empty is left out, except the path. -/
structure FileResult.WrittenAs (r : FileResult) (j : Json) : Prop where
  members : j.Follows [("path", .value), ("language", .omittable !r.language.isEmpty),
    ("merged", .omittable r.merged), ("result", .omittable r.result.isSome),
    ("error", .omittable !r.error.isEmpty)]
  result : Holds Outline.WrittenAs r.result j "result"

/-- How a report is written: only the revision can be left out. -/
structure Report.WrittenAs (r : Report) (j : Json) : Prop where
  members : j.Follows [("root", .value), ("revision", .omittable r.revision.isSome),
    ("files", .value), ("summary", .value)]
  revision : Holds Revision.WrittenAs r.revision j "revision"
  files : Lists FileResult.WrittenAs r.files j "files"
  summary : Holds Summary.WrittenAs (some r.summary) j "summary"

theorem Attribute.writtenAs_toJson (a : Attribute) : a.WrittenAs a.toJson :=
  Json.follows_record (by simp) rfl

theorem Method.writtenAs_toJson (m : Method) : m.WrittenAs m.toJson :=
  Json.follows_record (by simp) rfl

theorem FunctionInfo.writtenAs_toJson (f : FunctionInfo) : f.WrittenAs f.toJson :=
  Json.follows_record (by simp) rfl

theorem Edge.writtenAs_toJson (e : Edge) : e.WrittenAs e.toJson :=
  Json.follows_record (by simp) rfl

theorem Summary.writtenAs_toJson (s : Summary) : s.WrittenAs s.toJson :=
  Json.follows_record (by simp) rfl

theorem ClassInfo.writtenAs_toJson (c : ClassInfo) : c.WrittenAs c.toJson where
  members := by
    apply Json.follows_record (by simp)
    simp only [List.map_cons, List.map_nil, Json.ofMember_strOrNull]
    rfl
  attributes := .of_map (by simp [toJson, Json.get?_record]) Attribute.writtenAs_toJson
  methods := .of_map (by simp [toJson, Json.get?_record]) Method.writtenAs_toJson
  interfaces := .of_map (by simp [toJson, Json.get?_record]) fun _ => rfl

theorem Outline.writtenAs_toJson (o : Outline) : o.WrittenAs o.toJson where
  members := Json.follows_record (by simp) rfl
  classes := .of_map (by simp [toJson, Json.get?_record]) ClassInfo.writtenAs_toJson
  functions := .of_map (by simp [toJson, Json.get?_record]) FunctionInfo.writtenAs_toJson
  edges := .of_map (by simp [toJson, Json.get?_record]) Edge.writtenAs_toJson

theorem Envelope.writtenAs_toJson (e : Envelope) : e.WrittenAs e.toJson where
  members := by
    have hresult := Json.ofMember_getD_map Outline.toJson_ne_null e.result
    apply Json.follows_record (by simp)
    simp only [List.map_cons, List.map_nil, Json.ofMember_strOrNull, hresult]
    rfl
  result := .of_map (fun o ho => by simp [toJson, Json.get?_record, Option.mem_def.mp ho])
    Outline.writtenAs_toJson

theorem ofMember_textMember? (s : Bytes) :
    Standing.ofMember (textMember? s) = .omittable !s.isEmpty := by
  cases s with
  | nil => rfl
  | cons b s => rfl

theorem Revision.writtenAs_toJson (r : Revision) : r.WrittenAs r.toJson := by
  rw [toJson_eq]
  apply Json.follows_written (by simp)
  simp only [List.map_cons, List.map_nil, ofMember_textMember?]
  rfl

theorem FileResult.writtenAs_toJson (r : FileResult) : r.WrittenAs r.toJson where
  members := by
    have hmerged : Standing.ofMember (if r.merged then some (.bool true) else none) =
        .omittable r.merged := by
      cases r.merged with
      | false => rfl
      | true => rfl
    have hresult := Json.ofMember_map Outline.toJson_ne_null r.result
    rw [toJson_eq]
    apply Json.follows_written (by simp)
    simp only [List.map_cons, List.map_nil, ofMember_textMember?, hmerged, hresult]
    rfl
  result := by
    rw [toJson_eq]
    refine .of_map (fun o ho => ?_) Outline.writtenAs_toJson
    rw [Json.get?_record_written (by simp)]
    simp [Option.mem_def.mp ho]

theorem Report.writtenAs_toJson (r : Report) : r.WrittenAs r.toJson := by
  rw [toJson_eq]
  constructor
  case members =>
    have hrevision := Json.ofMember_map Revision.toJson_ne_null r.revision
    apply Json.follows_written (by simp)
    simp only [List.map_cons, List.map_nil, hrevision]
    rfl
  case revision =>
    refine .of_map (fun rev hrev => ?_) Revision.writtenAs_toJson
    rw [Json.get?_record_written (by simp)]
    simp [Option.mem_def.mp hrev]
  case files =>
    refine .of_map ?_ FileResult.writtenAs_toJson
    rw [Json.get?_record_written (by simp)]
    simp
  case summary =>
    refine .of_map (fun s hs => ?_) Summary.writtenAs_toJson
    rw [Json.get?_record_written (by simp), ← Option.mem_some_iff.mp hs]
    simp

/-! ## What is sent is received -/

/-- The text in which a value leaves the program, whichever way: as the body of an answer with any
status, and as what a command prints in the JSON format, which is also the one it takes where none is
named. -/
structure Json.IsSentAs (j : Json) (text : Bytes) : Prop where
  answered : ∀ status, (Http.Response.ofJson status (some j)).body = text
  printed : ∀ format, format = [] ∨ format = ofString "json" → Cli.formatted format j = .ok text

/-- A value of the program can be had back from the text in which it is sent. The text is one JSON
value with a newline behind it, the decoder makes the same value of it, and its members stand for the
fields in the declared way. -/
def Arrives {α : Type} (encode : α → Json) (decode : Json → Option α)
    (WrittenAs : α → Json → Prop) (x : α) : Prop :=
  ∃ text j, (encode x).IsSentAs text ∧ Json.read text = .ok (j, [10]) ∧ decode j = some x ∧
    WrittenAs x j

theorem Json.isSentAs_document (j : Json) : j.IsSentAs j.document where
  answered _ := rfl
  printed := by
    intro format hformat
    rw [Cli.formatted, if_pos]
    -- both names of the format pass the first test
    rcases hformat with rfl | rfl
    · rfl
    · simp

theorem Arrives.of_read {α : Type} {encode : α → Json} {decode : Json → Option α}
    {WrittenAs : α → Json → Prop} {x : α} (hutf8 : InUtf8 (encode x).texts)
    (hread : Json.read (encode x).document = .ok ((encode x).toUtf8, [10]))
    (hdecode : Inverts decode encode) (hwritten : WrittenAs x (encode x)) :
    Arrives encode decode WrittenAs x := by
  -- nothing is replaced in a value that is in UTF-8
  rw [Json.toUtf8_eq_of_inUtf8 _ hutf8] at hread
  exact ⟨_, _, (encode x).isSentAs_document, hread, hdecode x, hwritten⟩

/-- **Nothing is lost on the wire.** Every envelope and every report with texts in UTF-8 is read back
from the document in which it is sent: its strings without their escapes, its lists in their order,
and what is absent, empty or left out as its declaration says. -/
theorem wire_lossless :
    (∀ e : Envelope, InUtf8 e.texts →
      Arrives Envelope.toJson Envelope.ofJson? Envelope.WrittenAs e) ∧
    ∀ r : Report, InUtf8 r.texts → Arrives Report.toJson Report.ofJson? Report.WrittenAs r := by
  -- the depth of a value is bounded by its type, so the limit of the reader is never met
  constructor
  · intro e he
    have hutf8 : InUtf8 e.toJson.texts := e.inUtf8_toJson.mpr he
    exact .of_read hutf8 e.read_document Envelope.ofJson?_toJson e.writtenAs_toJson
  · intro r hr
    have hutf8 : InUtf8 r.toJson.texts := r.inUtf8_toJson.mpr hr
    exact .of_read hutf8 r.read_document Report.ofJson?_toJson r.writtenAs_toJson

/-- An envelope in which every kind of escape is needed, and an empty text stands beside an absent
one twice. -/
def Envelope.awkward : Envelope where
  success := false
  message := ofString "\"<b>\" \\ & \u2028\u2029\x01\x08\t\n\x0c\r é 𝄞"
  result := some ⟨[⟨ofString "A", [⟨[], [], ofString "<"⟩], [], some [], [[], ofString "\\u"]⟩,
    ⟨ofString "null", [], [], none, []⟩], [], []⟩
  language := some []
  filename := none

/-- A report in which one file has nothing but a path and another has everything. -/
def Report.awkward : Report where
  root := ofString "."
  revision := some ⟨ofString "4b825dc6", []⟩
  files := [⟨ofString "b&.py", [], false, none, []⟩,
    ⟨ofString "a\n.php", ofString "php", true, some .empty, ofString "\x7f"⟩]
  summary := ⟨2, 1, 0, 10, 905⟩

theorem wire_lossless_awkward :
    InUtf8 Envelope.awkward.texts ∧ InUtf8 Report.awkward.texts ∧
    Arrives Envelope.toJson Envelope.ofJson? Envelope.WrittenAs Envelope.awkward ∧
    Arrives Report.toJson Report.ofJson? Report.WrittenAs Report.awkward :=
  ⟨by decide, by decide, wire_lossless.1 _ (by decide), wire_lossless.2 _ (by decide)⟩

end ClassOutline
