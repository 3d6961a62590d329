import ClassOutline.Language
import ClassOutline.Model.Wire

/-!
# The envelope of an answer

A single analysis is answered with an envelope: whether it succeeded, a message for people, the
outline, and the language and file name as far as they are known.
-/

namespace ClassOutline

/-- The answer to a request for one analysis. -/
structure Envelope where
  success : Bool
  message : Bytes
  result : Option Outline
  language : Option Bytes
  filename : Option Bytes
deriving DecidableEq, Repr

namespace Envelope

/-! ## Messages -/

/-- Something was found. -/
def found : Bytes := Bytes.ofString "OK"

/-- The request held no code. -/
def noCodeMessage : Bytes := Bytes.ofString "No code provided."

/-- The analysis ran and found nothing. -/
def nothingFound : Bytes :=
  Bytes.ofString "No classes or functions detected for the selected/auto-detected language."

/-- The body of the request is over the limit. -/
def tooLarge : Bytes := Bytes.ofString "Uploaded code exceeds the size limit."

/-- The body of the request cannot be read. -/
def malformed : Bytes := Bytes.ofString "Malformed request body."

/-- The request came too soon after others. -/
def rateLimited : Bytes := Bytes.ofString "Too many requests, slow down."

/-! ## Envelopes -/

/-- A text, unless it is empty. -/
def nonEmpty? (s : Bytes) : Option Bytes := if s.isEmpty then none else some s

/-- The answer to an analysis that ran. -/
def ofOutline (result : Option Outline) (language : Language) (filename : Bytes) : Envelope where
  success := true
  message := if result.all Outline.isEmpty then nothingFound else found
  result := result
  language := nonEmpty? language
  filename := nonEmpty? filename

/-- The answer to a request that was refused. -/
def failure (message : Bytes) (language : Language) (filename : Bytes) : Envelope where
  success := false
  message := message
  result := none
  language := nonEmpty? language
  filename := nonEmpty? filename

/-- The answer to a request without code. Only the hint and the file name can tell a language. -/
def noCode (hint filename : Bytes) : Envelope :=
  let hinted := Language.normalizeHint hint
  failure noCodeMessage (if hinted.isEmpty then Language.ofFilename filename else hinted) filename

/-- The JSON form of an envelope. -/
def toJson (e : Envelope) : Json :=
  .record [("success", .bool e.success), ("message", .str e.message),
    ("result", (e.result.map (·.toJson)).getD .null),
    ("languageDetected", .strOrNull e.language), ("filename", .strOrNull e.filename)]

end Envelope

end ClassOutline
