import ClassOutline.Files.Path
import ClassOutline.Http.Multipart
import ClassOutline.Http.QueryText
import ClassOutline.Http.Request
import ClassOutline.Json.Reader

/-!
# Submissions

A submission is the code that a client wants analysed, with a language hint and a file name. It
comes as a JSON object, as form fields or as an uploaded file, and the content type of the request
tells which. Bodies are read up to a limit only; a body that is longer is refused unless what was
read already made a complete JSON value.
-/

namespace ClassOutline.Http

/-- Why a request is refused. -/
inductive Rejection where
  | rateLimited
  | tooLarge
  | badRequest
  | noCode
deriving DecidableEq, Repr

/-- What a client submits. -/
structure Submission where
  code : Bytes := []
  language : Bytes := []
  filename : Bytes := []
deriving DecidableEq, Repr

/-- A body as far as the limit lets it be read. -/
structure LimitedBody where
  text : Bytes
  /-- Whether there was more. -/
  truncated : Bool
deriving DecidableEq, Repr

/-- The body of a request under a limit. -/
def LimitedBody.ofBytes (limit : Nat) (body : Bytes) : LimitedBody :=
  ⟨body.take limit, limit < body.length⟩

/-- The refusal of a body that ends too early: more of it might have helped. -/
def LimitedBody.ended (b : LimitedBody) : Rejection :=
  if b.truncated then .tooLarge else .badRequest

namespace Submission

/-! ## JSON -/

/-- A submission with one member of a JSON object. Names may be given in either case, null changes
nothing, and unknown names are skipped. -/
def withMember (s : Submission) (member : Bytes × Json) : Option Submission :=
  let isNamed (name : String) := member.1.map Bytes.lowerByte == Bytes.ofString name
  if isNamed "code" then (text? s.code).map fun t => { s with code := t }
  else if isNamed "language" then (text? s.language).map fun t => { s with language := t }
  else if isNamed "filename" then (text? s.filename).map fun t => { s with filename := t }
  else some s
where
  /-- The text that the member gives, in place of an earlier one. -/
  text? (earlier : Bytes) : Option Bytes :=
    match member.2 with
    | .str t => some t
    | .null => some earlier
    | _ => none

/-- The submission of a JSON value: an object, or null for an empty one. -/
def ofJson? : Json → Option Submission
  | .obj members => members.foldlM withMember {}
  | .null => some {}
  | _ => none

/-- Whether the end of a value can only be seen from what follows it. -/
def endsOpen : Json → Bool
  | .obj _ | .arr _ => false
  | _ => true

/-- The submission of a JSON body. What follows the first value is not read. -/
def ofJsonBody (body : LimitedBody) : Except Rejection Submission :=
  match Json.read body.text with
  | .error .incomplete => .error body.ended
  | .error .invalid => .error .badRequest
  | .ok (value, rest) =>
    if body.truncated && rest.isEmpty && endsOpen value then .error .tooLarge
    else
      match ofJson? value with
      | some s => .ok s
      | none => .error .badRequest

/-! ## Forms -/

/-- The first value of a field, empty if there is none. -/
def fieldValue (fields : List (Bytes × Bytes)) (name : String) : Bytes :=
  ((fields.find? fun f => f.1 == Bytes.ofString name).map Prod.snd).getD []

/-- The submission of form fields. -/
def ofFields (fields : List (Bytes × Bytes)) : Submission where
  code := fieldValue fields "code"
  language := fieldValue fields "language"

/-- The submission of a body in query form. -/
def ofQueryBody (body : LimitedBody) : Except Rejection Submission :=
  if body.truncated then .error .tooLarge
  else
    match QueryText.fields? body.text with
    | some fields => .ok (ofFields fields)
    | none => .error .badRequest

/-- A form part: a field, or a file with its name. -/
inductive FormPart where
  | field (name value : Bytes)
  | file (name filename content : Bytes)
deriving DecidableEq, Repr

/-- The form part of a part, if it is one: it must have a name. A file's name is its last path
element. -/
def formPart? (p : Multipart.Part) : Option FormPart :=
  if p.formName.isEmpty then none
  else if p.fileName.isEmpty then some (.field p.formName p.content)
  else some (.file p.formName (Path.base p.fileName) p.content)

/-- The submission of form parts. An uploaded file gives the file name and, unless it is blank, the
code. -/
def ofFormParts (parts : List FormPart) : Submission :=
  let fields := parts.filterMap fun
    | .field name value => some (name, value)
    | .file .. => none
  let files := parts.filterMap fun
    | .file name filename content => if name == Bytes.ofString "file" then some (filename, content) else none
    | .field .. => none
  let s := ofFields fields
  match files with
  | [] => s
  | (filename, content) :: _ =>
    { s with filename := filename, code := if content.isBlank then s.code else content }

/-- The submission of a body in parts. -/
def ofMultipartBody (type : MediaType) (body : LimitedBody) : Except Rejection Submission :=
  match type.param (Bytes.ofString "boundary") with
  | none => .error .badRequest
  | some boundary =>
    match Multipart.parts (!body.truncated) boundary body.text with
    | .error .incomplete => .error body.ended
    | .error .malformed => .error .badRequest
    | .ok parts => .ok (ofFormParts (parts.filterMap formPart?))

/-! ## Requests -/

/-- A form submission of a request whose query, though not used, has to be well formed. -/
def checkQuery (query : Bytes) (s : Submission) : Except Rejection Submission :=
  if (QueryText.fields? query).isSome then .ok s else .error .badRequest

/-- The submission of a body of some type. A type that is no form makes an empty submission. -/
def ofBody (type : MediaType) (query : Bytes) (body : LimitedBody) : Except Rejection Submission :=
  if type.name == Bytes.ofString "application/json" then ofJsonBody body
  else if type.name == Bytes.ofString "multipart/form-data" then
    (ofMultipartBody type body).bind (checkQuery query)
  else if type.name == Bytes.ofString "application/x-www-form-urlencoded" then
    (ofQueryBody body).bind (checkQuery query)
  else checkQuery query {}

/-- The submission of a request. -/
def ofRequest (limit : Nat) (r : Request) : Except Rejection Submission :=
  match (r.header? "Content-Type").getD [] with
  | [] => checkQuery r.query {}
  | text =>
    match MediaType.parse? text with
    | some type => ofBody type r.query (.ofBytes limit r.body)
    | none => .error .badRequest

end Submission

end ClassOutline.Http
