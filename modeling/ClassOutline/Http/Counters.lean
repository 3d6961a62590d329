import ClassOutline.Http.Submission
import ClassOutline.Registry

/-!
# Counters

The service counts what becomes of requests for an analysis. A sample names one counter, and
`Counters.record` says which counters an outcome moves: a refusal moves the one of its reason, an
analysis the one of its language and mode, one for each kind of element by the number found, and the
number of timed analyses.
-/

namespace ClassOutline.Http

/-- What becomes of a request for an analysis. -/
inductive Outcome where
  | analyzed (analysis : Analysis)
  | rejected (reason : Rejection)
deriving DecidableEq, Repr

/-- The kinds of elements of an outline. -/
inductive ElementKind where
  | classes
  | functions
  | relationships
deriving DecidableEq, Repr

/-- The counters, by what they count. -/
inductive Sample where
  | analyses (language mode : Bytes)
  | rejections (reason : Rejection)
  | elements (kind : ElementKind)
  | timings
deriving DecidableEq, Repr

/-! ## Names -/

/-- The label of a reason. -/
def Rejection.label : Rejection → Bytes
  | .rateLimited => Bytes.ofString "rate_limited"
  | .tooLarge => Bytes.ofString "too_large"
  | .badRequest => Bytes.ofString "bad_request"
  | .noCode => Bytes.ofString "no_code"

/-- The label of a kind of element. -/
def ElementKind.label : ElementKind → Bytes
  | .classes => Bytes.ofString "class"
  | .functions => Bytes.ofString "function"
  | .relationships => Bytes.ofString "relationship"

/-- The name of a sample with labels. -/
def Sample.labelled (name : String) (labels : List (String × Bytes)) : Bytes :=
  let label (l : String × Bytes) := Bytes.ofString l.1 ++ [0x3D, 0x22] ++ l.2 ++ [0x22]
  Bytes.ofString ("umlparse_analyze_" ++ name) ++
    if labels.isEmpty then [] else 0x7B :: (Bytes.join [0x2C] (labels.map label) ++ [0x7D])

/-- The name of a sample, as the page of counters shows it. -/
def Sample.text : Sample → Bytes
  | .analyses language mode => labelled "requests_total" [("language", language), ("mode", mode)]
  | .rejections reason => labelled "rejected_total" [("reason", reason.label)]
  | .elements kind => labelled "elements_total" [("kind", kind.label)]
  | .timings => labelled "duration_seconds_count" []

/-! ## Counting -/

/-- The counters that have moved, each with its value. -/
abbrev Counters := List (Sample × Nat)

namespace Counters

/-- The value of a counter. -/
def value (c : Counters) (s : Sample) : Nat := ((c.find? fun e => e.1 = s).map Prod.snd).getD 0

/-- A counter moved by a number. -/
def add (s : Sample) (n : Nat) : Counters → Counters
  | [] => [(s, n)]
  | (t, m) :: c => if t = s then (t, m + n) :: c else (t, m) :: add s n c

/-- The sample that counts an analysis. The language is told only when one extractor ran, so that
clients cannot make up labels. -/
def analysisSample (a : Analysis) : Sample :=
  if a.merged then .analyses (Bytes.ofString "unknown") (Bytes.ofString "merged")
  else
    let language := if a.language.isEmpty then Bytes.ofString "unknown" else a.language
    .analyses language (Bytes.ofString "single")

/-- The counters after an outcome. -/
def record (c : Counters) : Outcome → Counters
  | .rejected reason => c.add (.rejections reason) 1
  | .analyzed a =>
    let c := c.add (analysisSample a) 1
    let c := c.add (.elements .classes) a.outline.classes.length
    let c := c.add (.elements .functions) a.outline.functions.length
    let c := c.add (.elements .relationships) a.outline.edges.length
    c.add .timings 1

/-- The page of counters: a line for each. -/
def page (c : Counters) : Bytes := c.flatMap fun e => e.1.text ++ 0x20 :: Bytes.ofInt e.2 ++ [10]

end Counters

end ClassOutline.Http
