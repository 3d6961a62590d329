import ClassOutline.Envelope

/-!
# Responses

A response is a status, header fields and a body. Bodies are JSON documents; a response without data
has the JSON content type all the same, and an empty body.
-/

namespace ClassOutline.Http

/-- A response of the service. -/
structure Response where
  status : Nat
  headers : List (Bytes × Bytes)
  body : Bytes
  /-- Whether the response names the analysis it belongs to. -/
  identified : Bool := false
deriving DecidableEq, Repr

namespace Response

/-- The content type of every body. -/
def jsonType : Bytes := Bytes.ofString "application/json; charset=utf-8"

/-- A response that holds a JSON document, or nothing. -/
def ofJson (status : Nat) (data : Option Json) : Response where
  status := status
  headers := [(Bytes.ofString "Content-Type", jsonType)]
  body := (data.map Json.document).getD []

/-- A response that holds a table of texts, in the byte order of its keys. -/
def ofTable (status : Nat) (entries : List (Bytes × Bytes)) : Response :=
  let sorted := entries.mergeSort fun a b => !Bytes.before b.1 a.1
  ofJson status (some (.obj (sorted.map fun e => (e.1, .str e.2))))

/-- A response that holds nothing but an error message. -/
def error (status : Nat) (message : Bytes) : Response :=
  ofTable status [(Bytes.ofString "error", message)]

/-- A response that holds an envelope. -/
def ofEnvelope (status : Nat) (e : Envelope) : Response := ofJson status (some e.toJson)

/-- The value of a header field. -/
def header? (r : Response) (name : Bytes) : Option Bytes :=
  (r.headers.find? fun h => h.1 == name).map Prod.snd

end Response

end ClassOutline.Http
