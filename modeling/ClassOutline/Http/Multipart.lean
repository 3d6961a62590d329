import ClassOutline.Http.MediaType
import ClassOutline.Http.QuotedPrintable

/-!
# Bodies in several parts

A multipart body is a sequence of parts between lines that hold a boundary. Each part has header
lines, an empty line and its content. The first boundary line decides whether lines end with a
carriage return and newline or with a newline alone. A body that breaks off is told apart from one
that no continuation could make valid, as the body may have been cut at a limit. An end that would do
for a whole body, such as a closing line without its newline, does not do for a body that was cut.
-/

namespace ClassOutline.Http.Multipart

/-- Why the parts cannot be read. -/
inductive Fault where
  /-- The body ends inside a part. -/
  | incomplete
  /-- Something stands where it may not. -/
  | malformed
deriving DecidableEq, Repr

/-- A part of a body. -/
structure Part where
  headers : List (Bytes × Bytes)
  content : Bytes
deriving DecidableEq, Repr

/-- Carriage return and newline. -/
def crlf : Bytes := [13, 10]

/-- A space or a tab. -/
def isGap (b : UInt8) : Bool := b == 0x20 || b == 9

/-! ## Header lines -/

/-- A line without its end, and the text after it. -/
def takeLine (s : Bytes) : Bytes × Bytes :=
  let line := s.takeWhile (· != 10)
  match s.drop line.length with
  | [] => (line, [])
  | _ :: rest => (if line.getLast? == some 13 then line.dropLast else line, rest)

/-- A text without spaces and tabs at its ends. -/
def trimGaps (s : Bytes) : Bytes := Bytes.dropWhileEnd isGap (s.dropWhile isGap)

/-- A header line with the lines that continue it, which begin with a space or tab. `fuel` bounds
their number. -/
def unfold : (fuel : Nat) → (line rest : Bytes) → Bytes × Bytes
  | 0, line, rest => (line, rest)
  | fuel + 1, line, rest =>
    if rest.head?.any isGap then
      let (next, rest) := takeLine (rest.dropWhile isGap)
      unfold fuel (line ++ 0x20 :: trimGaps next) rest
    else (line, rest)

/-- A byte of a header name. A space is let through, though no known name holds one. -/
def isNameByte (b : UInt8) : Bool :=
  Bytes.isLetter b || Bytes.isDigit b || List.elem b (Bytes.ofString "!#$%&\x27*+-.^_`|~ ")

/-- A byte of a header value. -/
def isValueByte (b : UInt8) : Bool := b == 9 || (0x20 ≤ b && b != 0x7F)

/-- The name and value of a header line. -/
def header? (line : Bytes) : Option (Bytes × Bytes) :=
  match Bytes.cut? 0x3A line with
  | some (name, value) =>
    if !name.isEmpty && name.all isNameByte && value.all isValueByte then
      some (name, value.dropWhile isGap)
    else none
  | none => none

/-- The header lines up to the empty line, and the text after that. There is nothing when the text
ends before it. `fuel` bounds the number of lines. -/
def headers : (fuel : Nat) → Bytes → Except Fault (Option (List (Bytes × Bytes) × Bytes))
  | 0, _ => .ok none
  | fuel + 1, s =>
    if s.isEmpty then .ok none
    else
      let (line, rest) := takeLine s
      if line.isEmpty then .ok (some ([], rest))
      else if !List.elem 0x3A line then .error .malformed
      else
        let (line, rest) := unfold rest.length (trimGaps line) rest
        match header? line with
        | none => .error .malformed
        | some h => (headers fuel rest).map (Option.map fun (hs, rest) => (h :: hs, rest))

/-- The first value of a header. -/
def Part.header? (p : Part) (name : String) : Option Bytes :=
  let lower (s : Bytes) := s.map Bytes.lowerByte
  (p.headers.find? fun h => lower h.1 == lower (Bytes.ofString name)).map Prod.snd

/-- What a part is for, if it is for a form. -/
def Part.formData? (p : Part) : Option MediaType :=
  (MediaType.parse? ((p.header? "Content-Disposition").getD [])).filter fun disposition =>
    disposition.name == Bytes.ofString "form-data"

/-- The name of a part in its form; empty where it has none. -/
def Part.formName (p : Part) : Bytes :=
  (p.formData?.bind fun d => d.param (Bytes.ofString "name")).getD []

/-- The name of the file that a part holds; empty where it holds none. -/
def Part.fileName (p : Part) : Bytes :=
  (p.formData?.bind fun d => d.param (Bytes.ofString "filename")).getD []

/-! ## Boundaries -/

/-- The two dashes and the boundary. -/
def dashed (boundary : Bytes) : Bytes := 0x2D :: 0x2D :: boundary

/-- The longest line, without its newline, that is read in search of a boundary. -/
def maxLine : Nat := 4095

/-- What follows a beginning and any spaces and tabs. -/
def afterMark? (mark line : Bytes) : Option Bytes :=
  (mark.isPrefixOf? line).map fun rest => rest.dropWhile isGap

/-- Whether a line, with its end, announces a part. -/
def isDelimiter (newline boundary line : Bytes) : Bool :=
  afterMark? (dashed boundary) line == some newline

/-- Whether a line, with its end if it has one, closes the body. -/
def isFinal (newline boundary line : Bytes) : Bool :=
  match afterMark? (dashed boundary ++ [0x2D, 0x2D]) line with
  | some rest => rest.isEmpty || rest == newline
  | none => false

/-- A line with its end, and the text after it. A body that ends without a newline must be whole and
end with the closing line, which is then `none`. -/
def boundaryLine (whole : Bool) (newline boundary s : Bytes) :
    Except Fault (Option (Bytes × Bytes)) :=
  let line := s.takeWhile (· != 10)
  if maxLine < line.length then .error .malformed
  else
    match s.drop line.length with
    | [] => if whole && isFinal newline boundary line then .ok none else .error .incomplete
    | lf :: rest => .ok (some (line ++ [lf], rest))

/-- The text after the first boundary line, and the line end that it shows. Lines before it are
skipped. There is nothing when the closing line comes first. -/
def afterPreamble (whole : Bool) (boundary : Bytes) :
    (fuel : Nat) → Bytes → Except Fault (Option (Bytes × Bytes))
  | 0, _ => .error .incomplete
  | fuel + 1, s =>
    match boundaryLine whole crlf boundary s with
    | .error e => .error e
    | .ok none => .ok none
    | .ok (some (line, rest)) =>
      if isDelimiter crlf boundary line then .ok (some (crlf, rest))
      else if isDelimiter [10] boundary line then .ok (some ([10], rest))
      else if isFinal crlf boundary line then .ok none
      else afterPreamble whole boundary fuel rest

/-- The text after the boundary line that follows a part, which may stand on the line after an empty
one. There is nothing when the line closes the body. -/
def afterPart (whole : Bool) (newline boundary s : Bytes) : Except Fault (Option Bytes) :=
  match boundaryLine whole newline boundary s with
  | .error e => .error e
  | .ok none => .ok none
  | .ok (some (line, rest)) =>
    if isDelimiter newline boundary line then .ok (some rest)
    else if isFinal newline boundary line then .ok none
    else if line != newline then .error .malformed
    else
      match boundaryLine whole newline boundary rest with
      | .error e => .error e
      | .ok none => .ok none
      | .ok (some (line, rest)) =>
        if isDelimiter newline boundary line then .ok (some rest)
        else if isFinal newline boundary line then .ok none
        else .error .malformed

/-! ## Content -/

/-- Whether what follows a boundary in the content shows that it is one. -/
def endsMark : Bytes → Bool
  | [] => true
  | 0x2D :: 0x2D :: _ => true
  | b :: _ => isGap b || b == 13 || b == 10

/-- The content up to a line end and boundary, and the text from there on. -/
def contentUpTo (mark : Bytes) : Bytes → Option (Bytes × Bytes)
  | [] => none
  | b :: s =>
    match mark.isPrefixOf? (b :: s) with
    | some rest =>
      if endsMark rest then some ([], b :: s)
      else (contentUpTo mark s).map fun (content, rest) => (b :: content, rest)
    | none => (contentUpTo mark s).map fun (content, rest) => (b :: content, rest)

/-- The content of a part. The boundary may follow the header lines at once. -/
def content? (newline boundary s : Bytes) : Option (Bytes × Bytes) :=
  match (dashed boundary).isPrefixOf? s with
  | some rest =>
    if endsMark rest then some ([], s) else contentUpTo (newline ++ dashed boundary) s
  | none => contentUpTo (newline ++ dashed boundary) s

/-- A content that breaks off, without what may be the beginning of a boundary line at its end. -/
def beforeMark (mark : Bytes) : Bytes → Bytes
  | [] => []
  | b :: s => if (b :: s).isPrefixOf mark then [] else b :: beforeMark mark s

/-- The content of a part that breaks off. -/
def brokenContent (newline boundary s : Bytes) : Bytes :=
  if s.isPrefixOf (dashed boundary) then [] else beforeMark (newline ++ dashed boundary) s

/-! ## Parts -/

/-- How many parts a body may have. -/
def maxParts : Nat := 1000

/-- A part with its transfer encoding undone, if it has the one that is known here. The content of a
part without a name is passed by as it is. `whole` says that the content is complete. -/
def Part.decoded? (whole : Bool) (p : Part) : Option Part :=
  let encoding := (p.header? "Content-Transfer-Encoding").getD []
  if encoding.map Bytes.lowerByte == Bytes.ofString "quoted-printable" && !p.formName.isEmpty then
    (QuotedPrintable.decode? whole p.content).map fun content => { p with content }
  else some p

/-- The parts of a text that begins after a boundary line. A whole body may end among the header
lines of a part, which then does not count. `room` bounds their number. -/
def partsFrom (whole : Bool) (newline boundary : Bytes) :
    (room : Nat) → Bytes → Except Fault (List Part)
  | 0, _ => .error .malformed
  | room + 1, s =>
    if s.head?.any isGap then .error .malformed
    else
      match headers (s.length + 1) s with
      | .error e => .error e
      | .ok none => if whole then .ok [] else .error .incomplete
      | .ok (some (headers, s)) =>
        match content? newline boundary s with
        | none =>
          let broken : Part := ⟨headers, brokenContent newline boundary s⟩
          .error (if (broken.decoded? false).isNone then .malformed else .incomplete)
        | some (content, s) =>
          match Part.decoded? true ⟨headers, content⟩ with
          | none => .error .malformed
          | some part =>
            match afterPart whole newline boundary s with
            | .error e => .error e
            | .ok none => .ok [part]
            | .ok (some s) => (partsFrom whole newline boundary room s).map (part :: ·)

/-- The parts of a body, of which `whole` says that nothing was cut off. -/
def parts (whole : Bool) (boundary body : Bytes) : Except Fault (List Part) :=
  if boundary.isEmpty then .error .malformed
  else
    match afterPreamble whole boundary (body.length + 1) body with
    | .error e => .error e
    | .ok none => .ok []
    | .ok (some (newline, s)) => partsFrom whole newline boundary maxParts s

end ClassOutline.Http.Multipart
