import ClassOutline.Remote.Url

/-!
# Requests

A request has a method, a target (a path and perhaps a query), header fields and a body. The path is
taken as it was sent: an escaped path is a different path. A target may also be a full address, as it
is sent to a proxy; its scheme and host are passed over.
-/

namespace ClassOutline.Http

/-- A request to the service. -/
structure Request where
  method : Bytes
  target : Bytes
  headers : List (Bytes × Bytes) := []
  body : Bytes := []
deriving DecidableEq, Repr

namespace Request

/-- The target up to the query. -/
def place (r : Request) : Bytes := r.target.takeWhile (· != 0x3F)

/-- The query, without its question mark. -/
def query (r : Request) : Bytes := r.target.drop (r.place.length + 1)

/-- The path of an address behind its scheme. There is one only where a slash follows. -/
def addressPath (s : Bytes) : Bytes :=
  if [0x2F, 0x2F].isPrefixOf s then (s.drop 2).dropWhile (· != 0x2F)
  else if s.head? == some 0x2F then s
  else []

/-- The path of the target; an address without a path means the root. -/
def path (r : Request) : Bytes :=
  match Url.splitScheme r.place with
  | .ok (_ :: _, rest) =>
    let path := addressPath rest
    if path.isEmpty then [0x2F] else path
  | _ => r.place

/-- The first value of a header field, whose name may be given in either case. -/
def header? (r : Request) (name : String) : Option Bytes :=
  let lower (s : Bytes) := s.map Bytes.lowerByte
  (r.headers.find? fun h => lower h.1 == lower (Bytes.ofString name)).map Prod.snd

end Request

end ClassOutline.Http
