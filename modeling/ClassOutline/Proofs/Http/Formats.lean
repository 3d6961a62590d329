import ClassOutline.Proofs.FrontEnds
import ClassOutline.Proofs.Http.MultipartForm
import ClassOutline.Proofs.Http.QueryForm
import ClassOutline.Proofs.Json.Spelling

/-!
# One submission in three formats

A client can send a text and a language hint as a JSON object, as a form on one line or as a form in
parts. The three have different escapes, line ends and delimiters, and a client has a choice within each
of them; whatever it chooses, the same submission is read (`formats_agree`). A text can also be uploaded
as a file. Then the file name is told as well, and an upload that is blank leaves the text of the form
in its place.

What a format carries is a list of named texts, in any order, and each format has one law: it is read as
`Submission.told` of its list.
-/

namespace ClassOutline.Http

open Bytes

/-! ## Named texts -/

namespace Submission

/-- The names that a submission knows. -/
def knownNames : List Bytes := ["code", "language", "filename"].map Bytes.ofString

/-- The submission that named texts tell. -/
def told (fields : List (Bytes × Bytes)) : Submission where
  code := fieldValue fields "code"
  language := fieldValue fields "language"
  filename := fieldValue fields "filename"

variable {fields : List (Bytes × Bytes)}

/-- A text under a name, or what stood there before. -/
def valueOr (fields : List (Bytes × Bytes)) (name : String) (earlier : Bytes) : Bytes :=
  ((fields.find? fun f => f.1 == Bytes.ofString name).map Prod.snd).getD earlier

variable {name : String} {value : Bytes}

theorem valueOr_cons (f : Bytes × Bytes) (fields : List (Bytes × Bytes)) (earlier : Bytes) :
    valueOr (f :: fields) name earlier =
      if f.1 = Bytes.ofString name then f.2 else valueOr fields name earlier := by
  by_cases h : f.1 = Bytes.ofString name <;> simp [valueOr, h]

theorem valueOr_of_not_mem (h : Bytes.ofString name ∉ fields.map Prod.fst) (earlier : Bytes) :
    valueOr fields name earlier = earlier := by
  induction fields with
  | nil => rfl
  | cons f fields ih =>
    rw [List.map_cons, List.mem_cons, not_or] at h
    rw [valueOr_cons, if_neg (Ne.symm h.1), ih h.2]

theorem fieldValue_of_not_mem (h : Bytes.ofString name ∉ fields.map Prod.fst) :
    fieldValue fields name = [] :=
  valueOr_of_not_mem h []

theorem fieldValue_of_mem (hnodup : (fields.map Prod.fst).Nodup)
    (h : (Bytes.ofString name, value) ∈ fields) : fieldValue fields name = value := by
  rw [fieldValue, find?_of_nodup hnodup h]
  rfl

/-- What is told does not depend on the order. -/
theorem told_perm {fields' : List (Bytes × Bytes)} (h : fields.Perm fields')
    (hnodup : (fields'.map Prod.fst).Nodup) : told fields = told fields' := by
  have hnodup' : (fields.map Prod.fst).Nodup := (h.map Prod.fst).nodup_iff.mpr hnodup
  have hvalue : ∀ name : String, fieldValue fields name = fieldValue fields' name := by
    intro name
    by_cases hname : Bytes.ofString name ∈ fields.map Prod.fst
    · obtain ⟨⟨n, value⟩, hmem, heq⟩ := List.mem_map.mp hname
      obtain rfl : n = Bytes.ofString name := heq
      rw [fieldValue_of_mem hnodup' hmem, fieldValue_of_mem hnodup (h.mem_iff.mp hmem)]
    · have hname' : Bytes.ofString name ∉ fields'.map Prod.fst :=
        fun hmem => hname ((h.map Prod.fst).mem_iff.mpr hmem)
      rw [fieldValue_of_not_mem hname, fieldValue_of_not_mem hname']
  rw [told, told, hvalue, hvalue, hvalue]

/-! ## JSON -/

theorem foldlM_withMember (hnodup : (fields.map Prod.fst).Nodup)
    (hknown : ∀ f ∈ fields, f.1 ∈ knownNames) (s : Submission) :
    (fields.map fun f => (f.1, Json.str f.2)).foldlM withMember s =
      some ⟨valueOr fields "code" s.code, valueOr fields "language" s.language,
        valueOr fields "filename" s.filename⟩ := by
  induction fields generalizing s with
  | nil => rfl
  | cons f fields ih =>
    obtain ⟨hf, hrest⟩ := List.nodup_cons.mp hnodup
    obtain ⟨hname, hknown⟩ := List.forall_mem_cons.mp hknown
    have hmore := ih hrest hknown
    obtain ⟨n, value⟩ := f
    simp only [knownNames, List.map_cons, List.map_nil, List.mem_cons, List.not_mem_nil,
      or_false] at hname
    rw [List.map_cons, List.foldlM_cons]
    -- one case for each name: the text goes to its place, and the rest leaves it there
    rcases hname with rfl | rfl | rfl <;>
      simp [withMember, withMember.text?, isNamed_iff, hmore, valueOr_cons, ofString_inj,
        valueOr_of_not_mem hf]

theorem ofJson?_ofFields (hnodup : (fields.map Prod.fst).Nodup)
    (hknown : ∀ f ∈ fields, f.1 ∈ knownNames) : ofJson? (Json.ofFields fields) = some (told fields) :=
  foldlM_withMember hnodup hknown {}

end Submission

/-! ## Requests -/

/-- A request whose content type has a name and parameters, however it is written. -/
structure Request.HasType (r : Request) (name : String) (params : List (Bytes × Bytes)) : Prop where
  text : ∃ t, MediaType.ParamsText params t ∧
    r.header? "Content-Type" = some (Bytes.ofString name ++ t)
  nodup : (params.map Prod.fst).Nodup

/-- What is asked of any request with a form: that its body is within the limit, that the limit is one
at which a field in parts may still be as long, and that there is nothing wrong with its query. -/
structure Request.IsAccepted (r : Request) (limit : Nat) : Prop where
  size : r.body.length ≤ limit
  limit_le : limit ≤ 10 * 2 ^ 20
  query : (QueryText.fields? r.query).isSome = true

variable {r : Request} {limit : Nat} {params : List (Bytes × Bytes)}

theorem LimitedBody.ofBytes_eq (h : r.body.length ≤ limit) :
    LimitedBody.ofBytes limit r.body = ⟨r.body, false⟩ := by
  simp [LimitedBody.ofBytes, List.take_of_length_le h, h]

theorem Request.HasType.ofRequest_eq {name : String} (h : r.HasType name params)
    (hname : MediaType.IsTypeName (Bytes.ofString name)) (hr : r.IsAccepted limit) :
    Submission.ofRequest limit r =
      Submission.ofBody ⟨Bytes.ofString name, params⟩ r.query ⟨r.body, false⟩ := by
  obtain ⟨t, ht, hheader⟩ := h.text
  have hparse := MediaType.parse?_text hname ht h.nodup
  -- an empty content type would be none at all, and it is not the name of a type
  have hne : Bytes.ofString name ++ t ≠ [] := by
    intro hnil
    have hnone : MediaType.parse? [] = none := by decide +kernel
    rw [hnil, hnone] at hparse
    cases hparse
  unfold Submission.ofRequest
  rw [hheader, Option.getD_some]
  split
  · rename_i hnil
    exact absurd hnil hne
  · rw [hparse, LimitedBody.ofBytes_eq hr.size]

namespace Submission

variable {fields : List (Bytes × Bytes)}

theorem checkQuery_of_accepted (hr : r.IsAccepted limit) (s : Submission) :
    checkQuery r.query s = .ok s :=
  if_pos hr.query

theorem isTypeName_formats :
    MediaType.IsTypeName (Bytes.ofString "application/json") ∧
      MediaType.IsTypeName (Bytes.ofString "application/x-www-form-urlencoded") ∧
      MediaType.IsTypeName (Bytes.ofString "multipart/form-data") := by
  decide +kernel

/-- The law of the first format. -/
theorem ofRequest_json (hr : r.IsAccepted limit) (htype : r.HasType "application/json" params)
    (hbody : Json.ObjectText fields r.body)
    (hutf8 : ∀ f ∈ fields, f.1.isUtf8 = true ∧ f.2.isUtf8 = true)
    (hnodup : (fields.map Prod.fst).Nodup) (hknown : ∀ f ∈ fields, f.1 ∈ knownNames) :
    ofRequest limit r = .ok (told fields) := by
  obtain ⟨rest, hread⟩ := hbody.read hutf8
  rw [htype.ofRequest_eq isTypeName_formats.1 hr]
  simp only [ofBody, beq_self_eq_true, if_true, ofJsonBody, hread, Bool.false_and, Bool.false_eq_true,
    if_false, ofJson?_ofFields hnodup hknown]

/-- The law of the second format. A form has no place for a file name. -/
theorem ofRequest_query (hr : r.IsAccepted limit)
    (htype : r.HasType "application/x-www-form-urlencoded" params)
    (hbody : QueryText.FormText fields r.body) :
    ofRequest limit r = .ok (ofFields fields) := by
  have hname : ∀ other ∈ ["application/json", "multipart/form-data"],
      (Bytes.ofString "application/x-www-form-urlencoded" == Bytes.ofString other) = false := by
    decide +kernel
  have hform : ofQueryBody ⟨r.body, false⟩ = .ok (ofFields fields) := by
    simp only [ofQueryBody, Bool.false_eq_true, if_false, hbody.fields?_eq]
  rw [htype.ofRequest_eq isTypeName_formats.2.1 hr]
  simp only [ofBody, hname _ List.mem_cons_self,
    hname _ (List.mem_cons_of_mem _ List.mem_cons_self), beq_self_eq_true, Bool.false_eq_true,
    if_false, if_true, hform]
  exact checkQuery_of_accepted hr _

/-! ## Parts -/

/-- What an entry is in a form. -/
def formPart (e : Multipart.Entry) : FormPart :=
  match e.filename with
  | none => .field e.name e.content
  | some f => .file e.name (Path.base f) e.content

theorem formPart?_part {e : Multipart.Entry} (he : e.IsWritable) :
    formPart? e.part = some (formPart e) := by
  have hname : e.name.isEmpty = false := by simpa using he.name_ne_nil
  rw [formPart?, Multipart.Entry.formName_part he, Multipart.Entry.fileName_part he, hname, formPart]
  cases hfile : e.filename with
  | none => rfl
  | some f =>
    have hne : f.isEmpty = false := by simpa using (he.filename f hfile).1
    simp only [Option.getD_some, hne, Bool.false_eq_true, if_false]
    rfl

theorem filterMap_formPart? {entries : List Multipart.Entry} (h : ∀ e ∈ entries, e.IsWritable) :
    (entries.map Multipart.Entry.part).filterMap formPart? = entries.map formPart := by
  induction entries with
  | nil => rfl
  | cons e entries ih =>
    obtain ⟨he, hrest⟩ := List.forall_mem_cons.mp h
    rw [List.map_cons, List.filterMap_cons_some (formPart?_part he), ih hrest, List.map_cons]

/-- The law of the third format. -/
theorem ofRequest_multipart (hr : r.IsAccepted limit) {boundary : Bytes}
    (hb : Multipart.IsBoundary boundary) (htype : r.HasType "multipart/form-data" params)
    (hboundary : (Bytes.ofString "boundary", boundary) ∈ params) {entries : List Multipart.Entry}
    (hentries : ∀ e ∈ entries, e.Fits boundary) (hne : entries ≠ [])
    (hroom : entries.length ≤ Multipart.maxParts)
    (hbody : r.body = Multipart.bodyText boundary entries) :
    ofRequest limit r = .ok (ofFormParts (entries.map formPart)) := by
  have hname : (Bytes.ofString "multipart/form-data" == Bytes.ofString "application/json") = false := by
    decide +kernel
  have hparam : (MediaType.mk (Bytes.ofString "multipart/form-data") params).param
      (Bytes.ofString "boundary") = some boundary := by
    obtain ⟨t, ht, -⟩ := htype.text
    rw [MediaType.param_eq_given fun p hp => (ht.isKey p hp).no_star, MediaType.given?,
      find?_of_nodup htype.nodup hboundary]
    rfl
  have hparts : Multipart.parts true boundary r.body = .ok (entries.map Multipart.Entry.part) := by
    cases entries with
    | nil => exact absurd rfl hne
    | cons e entries =>
      rw [hbody]
      exact Multipart.parts_bodyText hb hentries (Nat.lt_of_succ_le hroom)
  have hform := filterMap_formPart? fun e he => (hentries e he).toIsWritable
  rw [htype.ofRequest_eq isTypeName_formats.2.2 hr]
  simp only [ofBody, hname, beq_self_eq_true, Bool.false_eq_true, if_false, if_true, ofMultipartBody,
    hparam, Bool.not_false, hparts, hform]
  exact checkQuery_of_accepted hr _

/-- The named text that a form part is. -/
def FormPart.field? : FormPart → Option (Bytes × Bytes)
  | .field name value => some (name, value)
  | .file .. => none

/-- The uploaded file that a form part is, with its name and content. -/
def FormPart.upload? : FormPart → Option (Bytes × Bytes)
  | .file name filename content =>
    if name == Bytes.ofString "file" then some (filename, content) else none
  | .field .. => none

/-- A named text as an entry of a form in parts. -/
def entry (f : Bytes × Bytes) : Multipart.Entry := { name := f.1, content := f.2 }

theorem ofFormParts_eq (parts : List FormPart) :
    ofFormParts parts =
      match parts.filterMap FormPart.upload? with
      | [] => ofFields (parts.filterMap FormPart.field?)
      | (filename, content) :: _ =>
        ⟨if content.isBlank then fieldValue (parts.filterMap FormPart.field?) "code" else content,
          fieldValue (parts.filterMap FormPart.field?) "language", filename⟩ :=
  rfl

theorem field?_entries (fields : List (Bytes × Bytes)) :
    ((fields.map entry).map formPart).filterMap FormPart.field? = fields := by
  rw [List.filterMap_map, List.filterMap_map]
  exact List.filterMap_some

theorem upload?_entries (fields : List (Bytes × Bytes)) :
    ((fields.map entry).map formPart).filterMap FormPart.upload? = [] := by
  rw [List.filterMap_map, List.filterMap_map]
  exact List.filterMap_eq_nil_iff.mpr fun _ _ => rfl

/-- A form in parts that has fields only. -/
theorem ofFormParts_entries (fields : List (Bytes × Bytes)) :
    ofFormParts ((fields.map entry).map formPart) = ofFields fields := by
  rw [ofFormParts_eq, upload?_entries, field?_entries]

/-- A form in parts that has one file, in any place. -/
theorem ofFormParts_upload {entries : List Multipart.Entry} {type : Option Bytes} {n content : Bytes}
    (hne : n ≠ []) (hslash : Path.slash ∉ n)
    (h : entries.Perm (⟨Bytes.ofString "file", some n, type, content⟩ :: fields.map entry))
    (hnodup : (fields.map Prod.fst).Nodup) :
    ofFormParts (entries.map formPart) =
      ⟨if content.isBlank then (told fields).code else content, (told fields).language, n⟩ := by
  have hparts : (entries.map formPart).Perm
      (.file (Bytes.ofString "file") n content :: (fields.map entry).map formPart) := by
    have hmap := h.map formPart
    simp only [List.map_cons, formPart, Path.base_name hne hslash] at hmap
    exact hmap
  have hfiles : (entries.map formPart).filterMap FormPart.upload? = [(n, content)] := by
    have hperm := hparts.filterMap FormPart.upload?
    rw [List.filterMap_cons_some (b := (n, content)) (by simp [FormPart.upload?]), upload?_entries] at hperm
    exact List.perm_singleton.mp hperm
  have hfields : ((entries.map formPart).filterMap FormPart.field?).Perm fields := by
    have hperm := hparts.filterMap FormPart.field?
    rwa [List.filterMap_cons_none rfl, field?_entries] at hperm
  have htold := told_perm hfields hnodup
  rw [ofFormParts_eq, hfiles, ← htold]
  rfl

/-- The named texts of a submission. A file name is told only if there is one. -/
def texts (s : Submission) : List (Bytes × Bytes) :=
  (Bytes.ofString "code", s.code) :: (Bytes.ofString "language", s.language) ::
    if s.filename.isEmpty then [] else [(Bytes.ofString "filename", s.filename)]

theorem fst_texts (s : Submission) :
    (s.texts.map Prod.fst).Nodup ∧ ∀ f ∈ s.texts, f.1 ∈ knownNames := by
  unfold texts
  split <;> constructor <;> simp [knownNames, ofString_inj]

theorem told_texts (s : Submission) : told s.texts = s := by
  obtain ⟨code, language, filename⟩ := s
  have hnodup := (fst_texts ⟨code, language, filename⟩).1
  have hcode : fieldValue (texts ⟨code, language, filename⟩) "code" = code :=
    fieldValue_of_mem hnodup List.mem_cons_self
  have hlanguage : fieldValue (texts ⟨code, language, filename⟩) "language" = language :=
    fieldValue_of_mem hnodup (List.mem_cons_of_mem _ List.mem_cons_self)
  have hfilename : fieldValue (texts ⟨code, language, filename⟩) "filename" = filename := by
    by_cases hempty : filename = []
    · subst hempty
      exact fieldValue_of_not_mem (by simp [texts, ofString_inj])
    · exact fieldValue_of_mem hnodup (by simp [texts, hempty])
  rw [told, hcode, hlanguage, hfilename]

/-- The named texts beside an upload: the hint, and perhaps a text. -/
def uploadFields (language : Bytes) (other : Option Bytes) : List (Bytes × Bytes) :=
  (Bytes.ofString "language", language) :: (other.map fun c => (Bytes.ofString "code", c)).toList

theorem told_uploadFields (language : Bytes) (other : Option Bytes) :
    ((uploadFields language other).map Prod.fst).Nodup ∧
      told (uploadFields language other) = ⟨other.getD [], language, []⟩ := by
  have hnodup : ((uploadFields language other).map Prod.fst).Nodup := by
    cases other <;> simp [uploadFields, ofString_inj]
  have hcode : fieldValue (uploadFields language other) "code" = other.getD [] := by
    cases other with
    | none => exact fieldValue_of_not_mem (by simp [uploadFields, ofString_inj])
    | some c => exact fieldValue_of_mem hnodup (by simp [uploadFields])
  have hlanguage : fieldValue (uploadFields language other) "language" = language :=
    fieldValue_of_mem hnodup List.mem_cons_self
  have hfilename : fieldValue (uploadFields language other) "filename" = [] := by
    apply fieldValue_of_not_mem
    cases other <;> simp [uploadFields, ofString_inj]
  exact ⟨hnodup, by rw [told, hcode, hlanguage, hfilename]⟩

end Submission

/-! ## Formats -/

/-- A name that a file can be uploaded under. -/
structure IsFileName (n : Bytes) : Prop where
  ne_nil : n ≠ []
  quotable : Multipart.IsQuotable n
  no_slash : Path.slash ∉ n

/-- A request with a form in parts that are written with some boundary. -/
structure Request.HasParts (r : Request) (entries : List Multipart.Entry) : Prop where
  form : ∃ boundary params, Multipart.IsBoundary boundary ∧ r.HasType "multipart/form-data" params ∧
    (Bytes.ofString "boundary", boundary) ∈ params ∧ (∀ e ∈ entries, ¬ boundary <:+: e.content) ∧
    r.body = Multipart.bodyText boundary entries

/-- The ways in which a request can tell a submission. -/
inductive Request.Writes (r : Request) : Submission → Prop where
  /-- An object, with a file name or without. -/
  | json {sub : Submission} {params fields : List (Bytes × Bytes)}
      (type : r.HasType "application/json" params) (order : fields.Perm sub.texts)
      (body : Json.ObjectText fields r.body) : r.Writes sub
  /-- A form on one line. -/
  | query {code language : Bytes} {params fields : List (Bytes × Bytes)}
      (type : r.HasType "application/x-www-form-urlencoded" params)
      (order : fields.Perm (Submission.mk code language []).texts)
      (body : QueryText.FormText fields r.body) : r.Writes ⟨code, language, []⟩
  /-- A form in parts. -/
  | parts {code language : Bytes} {fields : List (Bytes × Bytes)}
      (order : fields.Perm (Submission.mk code language []).texts)
      (body : r.HasParts (fields.map Submission.entry)) : r.Writes ⟨code, language, []⟩
  /-- A file with something in it. There may be another text beside it, which does not count. -/
  | upload {content language n : Bytes} {other type : Option Bytes} {entries : List Multipart.Entry}
      (name : IsFileName n) (type_fit : ∀ t ∈ type, Multipart.IsValue t)
      (order : entries.Perm (⟨Bytes.ofString "file", some n, type, content⟩ ::
        (Submission.uploadFields language other).map Submission.entry))
      (body : r.HasParts entries) (blank : content.isBlank = false) : r.Writes ⟨content, language, n⟩
  /-- A file with nothing in it. The text beside it counts. -/
  | blankUpload {content language n : Bytes} {other type : Option Bytes}
      {entries : List Multipart.Entry} (name : IsFileName n)
      (type_fit : ∀ t ∈ type, Multipart.IsValue t)
      (order : entries.Perm (⟨Bytes.ofString "file", some n, type, content⟩ ::
        (Submission.uploadFields language other).map Submission.entry))
      (body : r.HasParts entries) (blank : content.isBlank = true) :
      r.Writes ⟨other.getD [], language, n⟩

namespace Submission

/-- The names of the fields can be written. -/
theorem isWritable_entry {f : Bytes × Bytes} (h : f.1 ∈ knownNames) : (entry f).IsWritable := by
  have hall : ∀ n ∈ knownNames, n ≠ [] ∧ Multipart.IsQuotable n := by decide +kernel
  obtain ⟨hne, hquotable⟩ := hall f.1 h
  refine ⟨hne, hquotable, ?_, ?_⟩
  · intro n hn
    cases hn
  · intro t ht
    cases ht

theorem ofRequest_hasParts (hr : r.IsAccepted limit) {entries : List Multipart.Entry}
    (h : r.HasParts entries) (hwritable : ∀ e ∈ entries, e.IsWritable) (hne : entries ≠ [])
    (hroom : entries.length ≤ Multipart.maxParts) :
    ofRequest limit r = .ok (ofFormParts (entries.map formPart)) := by
  obtain ⟨boundary, params, hb, htype, hboundary, hapart, hbody⟩ := h.form
  exact ofRequest_multipart hr hb htype hboundary
    (fun e he => ⟨hwritable e he, hapart e he⟩) hne hroom hbody

/-- A form in parts with one file, in any place. -/
theorem ofRequest_upload (hr : r.IsAccepted limit) {content language n : Bytes}
    {other type : Option Bytes} {entries : List Multipart.Entry} (hname : IsFileName n)
    (htype : ∀ t ∈ type, Multipart.IsValue t)
    (horder : entries.Perm (⟨Bytes.ofString "file", some n, type, content⟩ ::
      (uploadFields language other).map entry)) (h : r.HasParts entries) :
    ofRequest limit r =
      .ok ⟨if content.isBlank then other.getD [] else content, language, n⟩ := by
  obtain ⟨hnodup, htold⟩ := told_uploadFields language other
  have hfile : (Multipart.Entry.mk (Bytes.ofString "file") (some n) type content).IsWritable := by
    have hword : Bytes.ofString "file" ≠ [] ∧ Multipart.IsQuotable (Bytes.ofString "file") := by
      decide +kernel
    refine ⟨hword.1, hword.2, ?_, htype⟩
    intro f hf
    obtain rfl : n = f := Option.some.inj hf
    exact ⟨hname.ne_nil, hname.quotable⟩
  have hfields : ∀ f ∈ uploadFields language other, f.1 ∈ knownNames := by
    cases other <;> simp [uploadFields, knownNames]
  have hwritable : ∀ e ∈ entries, e.IsWritable := by
    intro e he
    rcases List.mem_cons.mp (horder.mem_iff.mp he) with rfl | he
    · exact hfile
    · obtain ⟨f, hf, rfl⟩ := List.mem_map.mp he
      exact isWritable_entry (hfields f hf)
  have hlength : entries.length ≤ 3 := by
    rw [horder.length_eq]
    cases other <;> simp [uploadFields]
  have hne : entries ≠ [] := by
    rintro rfl
    exact absurd horder.length_eq (by simp)
  rw [ofRequest_hasParts hr h hwritable hne (Nat.le_trans hlength (by decide)),
    ofFormParts_upload hname.ne_nil hname.no_slash horder hnodup, htold]

/-- **What a request writes is what is read.** -/
theorem ofRequest_of_writes {sub : Submission} (hr : r.IsAccepted limit) (h : r.Writes sub)
    (hutf8 : ∀ f ∈ sub.texts, f.2.isUtf8 = true) : ofRequest limit r = .ok sub := by
  obtain ⟨hnodup, hknown⟩ := fst_texts sub
  cases h with
  | @json sub params fields type order body =>
    have hknown' : ∀ f ∈ fields, f.1 ∈ knownNames := fun f hf => hknown f (order.mem_iff.mp hf)
    have hnames : ∀ n ∈ knownNames, n.isUtf8 = true := by
      intro n hn
      obtain ⟨name, -, rfl⟩ := List.mem_map.mp hn
      exact isUtf8_ofString name
    have hnodup' := (order.map Prod.fst).nodup_iff.mpr hnodup
    rw [ofRequest_json hr type body (fun f hf => ⟨hnames f.1 (hknown' f hf),
      hutf8 f (order.mem_iff.mp hf)⟩) hnodup' hknown', told_perm order hnodup, told_texts]
  | @query code language params fields type order body =>
    have htold := (told_perm order hnodup).trans (told_texts _)
    rw [ofRequest_query hr type body]
    exact congrArg Except.ok (congrArg (fun s : Submission => { s with filename := [] }) htold)
  | @parts code language fields order body =>
    have htold := (told_perm order hnodup).trans (told_texts _)
    have hlength : (fields.map entry).length ≤ Multipart.maxParts := by
      rw [List.length_map, order.length_eq]
      exact (by decide : 2 ≤ Multipart.maxParts)
    have hwritable : ∀ e ∈ fields.map entry, e.IsWritable := by
      intro e he
      obtain ⟨f, hf, rfl⟩ := List.mem_map.mp he
      exact isWritable_entry (hknown f (order.mem_iff.mp hf))
    have hne : fields.map entry ≠ [] := by
      intro hnil
      have hzero := order.length_eq
      rw [List.map_eq_nil_iff.mp hnil] at hzero
      cases hzero
    rw [ofRequest_hasParts hr body hwritable hne hlength, ofFormParts_entries]
    exact congrArg Except.ok (congrArg (fun s : Submission => { s with filename := [] }) htold)
  | upload name type_fit order body blank =>
    rw [ofRequest_upload hr name type_fit order body, blank]
    rfl
  | blankUpload name type_fit order body blank =>
    rw [ofRequest_upload hr name type_fit order body, blank]
    rfl

end Submission

/-! ## Answers -/

/-- Requests with the same method and target that are read as the same submission are answered alike,
and leave the service in the same state. -/
theorem Service.handle_congr (s : Service) {r r' : Request} (hmethod : r.method = r'.method)
    (htarget : r.target = r'.target)
    (hread : Submission.ofRequest s.settings.maxUploadBytes.toNat r =
      Submission.ofRequest s.settings.maxUploadBytes.toNat r') : s.handle r = s.handle r' := by
  have hpath : r.path = r'.path := by simp only [Request.path, Request.place, htarget]
  have hanswer : s.answer r = s.answer r' := by
    simp only [answer, Endpoint.ofRequest, hmethod, hpath, Answer.ofAnalysisRequest, hread]
  have hlimited : Endpoint.isLimited r = Endpoint.isLimited r' := by
    simp only [Endpoint.isLimited, hmethod, hpath]
  have hrespond : s.respond s.hasToken r = s.respond s.hasToken r' := by
    simp only [respond, hmethod, hlimited, hanswer]
  simp only [handle, conclude, hrespond, tokensAfter, hmethod, hlimited]

/-- **The formats agree.** However a client sends a submission, it is the same that is read and the
same that is answered. -/
theorem formats_agree (s : Service) {sub : Submission}
    (hcode : sub.code.isUtf8 = true) (hlanguage : sub.language.isUtf8 = true)
    (hfilename : sub.filename.isUtf8 = true) {r r' : Request}
    (hr : r.IsAccepted s.settings.maxUploadBytes.toNat)
    (hr' : r'.IsAccepted s.settings.maxUploadBytes.toNat) (h : r.Writes sub) (h' : r'.Writes sub) :
    Submission.ofRequest s.settings.maxUploadBytes.toNat r = .ok sub ∧
      Submission.ofRequest s.settings.maxUploadBytes.toNat r' = .ok sub ∧
      (r.method = r'.method → r.target = r'.target → s.handle r = s.handle r') := by
  have hutf8 : ∀ f ∈ sub.texts, f.2.isUtf8 = true := by
    intro f hf
    unfold Submission.texts at hf
    split at hf <;> simp only [List.mem_cons, List.not_mem_nil, or_false] at hf
    · rcases hf with rfl | rfl
      · exact hcode
      · exact hlanguage
    · rcases hf with rfl | rfl | rfl
      · exact hcode
      · exact hlanguage
      · exact hfilename
  have hread := Submission.ofRequest_of_writes hr h hutf8
  have hread' := Submission.ofRequest_of_writes hr' h' hutf8
  exact ⟨hread, hread', fun hmethod htarget =>
    s.handle_congr hmethod htarget (hread.trans hread'.symm)⟩

/-- A text with a letter that is not ASCII, a line end and a quote, in all three formats. -/
theorem formats_agree_quote :
    let sub : Submission := ⟨[0xC3, 0xA9, 13, 10, 0x22], [], []⟩
    let post (type : String) (body : Bytes) : Request :=
      ⟨Bytes.ofString "POST", Bytes.ofString "/",
        [(Bytes.ofString "Content-Type", Bytes.ofString type)], body⟩
    let json := post "application/json"
      (Bytes.ofString "\x7b\"code\":\"\\u00e9\\r\\n\\\"\",\"language\":\"\"\x7d")
    let query := post "application/x-www-form-urlencoded"
      (Bytes.ofString "language=&code=%c3%A9%0D%0a%22")
    let parts := post "multipart/form-data; boundary=b"
      (Multipart.bodyText (Bytes.ofString "b") (sub.texts.map Submission.entry))
    let s : Service := ⟨{}, .builtIn, none, []⟩
    sub.code.isUtf8 = true ∧ (∀ r ∈ [json, query, parts], r.IsAccepted s.settings.maxUploadBytes.toNat) ∧
      json.Writes sub ∧ query.Writes sub ∧ parts.Writes sub ∧
      s.handle json = s.handle query ∧ s.handle json = s.handle parts := by
  intro sub post json query parts s
  have hcode : sub.code.isUtf8 = true := by decide +kernel
  have hempty : Bytes.isUtf8 [] = true := rfl
  have haccepted : ∀ r ∈ [json, query, parts], r.IsAccepted s.settings.maxUploadBytes.toNat := by
    have hquery : ∀ body type, (QueryText.fields? (post type body).query).isSome = true := by
      intro body type
      have hnone : (post type body).query = [] := by
        show (Bytes.ofString "/").drop (((Bytes.ofString "/").takeWhile (· != 0x3F)).length + 1) = []
        decide +kernel
      rw [hnone]
      rfl
    simp only [List.forall_mem_cons]
    exact ⟨⟨by decide +kernel, by decide +kernel, hquery _ _⟩,
      ⟨by decide +kernel, by decide +kernel, hquery _ _⟩,
      ⟨by decide +kernel, by decide +kernel, hquery _ _⟩, by simp⟩
  have htype : ∀ name body, (post name body).HasType name [] := by
    intro name body
    refine ⟨⟨[], .nil, ?_⟩, List.nodup_nil⟩
    simp [Request.header?, post]
  have hname : ∀ name ∈ ["code", "language"], Json.Spells (Bytes.ofString name) (Bytes.ofString name) ∧
      QueryText.Spells (Bytes.ofString name) (Bytes.ofString name) := by
    have hplain : ∀ name ∈ ["code", "language"], ∀ b ∈ Bytes.ofString name,
        Json.isPlain b = true ∧ b ∉ QueryText.reserved := by decide +kernel
    intro name hname
    exact ⟨.of_plain fun b hb => (hplain name hname b hb).1,
      .of_plain fun b hb => (hplain name hname b hb).2⟩
  have hjson : json.Writes sub := by
    have hunit : Json.IsUnit 0xE9 [0x30, 0x30, 0x65, 0x39] :=
      ⟨_, _, _, _, 0, 0, 14, 9, rfl, rfl, rfl, rfl, rfl, rfl⟩
    have hspells : Json.Spells (Bytes.ofCodePoint 0xE9 ++ [13, 10, 0x22]) _ :=
      .unit hunit (by decide) (.short (e := 0x72) rfl (.short (e := 0x6E) rfl
        (.short (e := 0x22) rfl .nil)))
    refine .json (htype _ _) (List.Perm.refl _) ⟨[], _, [], ?_, ?_,
      .more (hname "code" (by simp)).1.quotes hspells.quotes
        (.last (hname "language" (by simp)).1.quotes Json.Spells.nil.quotes), ?_⟩
    · exact fun _ h => absurd h List.not_mem_nil
    · exact fun _ h => absurd h List.not_mem_nil
    · decide +kernel
  have hquery : query.Writes sub := by
    have hspells : QueryText.Spells sub.code _ :=
      .escaped (a := 0x63) (b := 0x33) rfl rfl (.escaped (a := 0x41) (b := 0x39) rfl rfl
        (.escaped (a := 0x30) (b := 0x44) rfl rfl (.escaped (a := 0x30) (b := 0x61) rfl rfl
          (.escaped (a := 0x32) (b := 0x32) rfl rfl .nil))))
    have hpieces : List.Forall₂ QueryText.FieldText
        [(Bytes.ofString "language", []), (Bytes.ofString "code", sub.code)] _ :=
      .cons ⟨_, _, (hname "language" (by simp)).2, .nil, rfl⟩
        (.cons ⟨_, _, (hname "code" (by simp)).2, hspells, rfl⟩ .nil)
    exact .query (htype _ _) (List.Perm.swap _ _ _) ⟨_, hpieces, by decide +kernel⟩
  have hparts : parts.Writes sub := by
    refine .parts (List.Perm.refl _) ⟨Bytes.ofString "b", [(Bytes.ofString "boundary",
      Bytes.ofString "b")], by decide +kernel, ⟨⟨_, .cons 1 (by decide +kernel)
        (.bare (by decide +kernel) (by decide +kernel)) .nil, ?_⟩, by simp⟩, by simp, ?_, rfl⟩
    · decide +kernel
    · decide +kernel
  obtain ⟨-, -, hfirst⟩ := formats_agree s hcode hempty hempty (haccepted json (by simp))
    (haccepted query (by simp)) hjson hquery
  obtain ⟨-, -, hsecond⟩ := formats_agree s hcode hempty hempty (haccepted json (by simp))
    (haccepted parts (by simp)) hjson hparts
  exact ⟨hcode, haccepted, hjson, hquery, hparts, hfirst rfl rfl, hsecond rfl rfl⟩

end ClassOutline.Http
