import ClassOutline.Text.Blank
import ClassOutline.Text.LowerCase

/-!
# Media types

A media type is a name with parameters, as in `multipart/form-data; boundary=x`. The disposition of
a form part has the same shape. Parameter values are words or quoted texts, and a long or
non-ASCII value may come in numbered or percent-escaped pieces, whose names hold a star.
-/

namespace ClassOutline.Http

/-- A media type. -/
structure MediaType where
  name : Bytes
  /-- The parameters as they were given, with names in lower case. -/
  params : List (Bytes × Bytes)
deriving DecidableEq, Repr

namespace MediaType

/-! ## Words and values -/

/-- A byte that delimits words. -/
def isSpecial (b : UInt8) : Bool := List.elem b (Bytes.ofString "()<>@,;:\\\"/[]?=")

/-- A byte of a word. -/
def isWordByte (b : UInt8) : Bool := 0x20 < b && b < 0x7F && !isSpecial b

/-- Whether a text is a media type name: a word, or two words with a slash between. -/
def isName (s : Bytes) : Bool :=
  match s.takeWhile isWordByte, s.dropWhile isWordByte with
  | [], _ => false
  | _, [] => true
  | _, b :: subtype => b == 0x2F && !subtype.isEmpty && subtype.all isWordByte

/-- The rest of a quoted value after its opening quote. A backslash counts only in front of a
delimiter, and a line break ends nothing. -/
def quotedTail : Bytes → Option (Bytes × Bytes)
  | [] => none
  | 0x22 :: s => some ([], s)
  | 0x5C :: b :: s =>
    if isSpecial b then (quotedTail s).map fun (value, rest) => (b :: value, rest)
    else (quotedTail (b :: s)).map fun (value, rest) => (0x5C :: value, rest)
  | b :: s =>
    if b == 0x0D || b == 0x0A then none
    else (quotedTail s).map fun (value, rest) => (b :: value, rest)

/-- The value at the front of a text. Only a quoted value may be empty. -/
def value? (s : Bytes) : Option (Bytes × Bytes) :=
  match s with
  | 0x22 :: s => quotedTail s
  | _ =>
    let word := s.takeWhile isWordByte
    if word.isEmpty then none else some (word, s.drop word.length)

/-! ## Parameters -/

/-- The parameter at the front of a text, which begins with its semicolon. -/
def param? (s : Bytes) : Option ((Bytes × Bytes) × Bytes) :=
  match s with
  | 0x3B :: s =>
    let s := Bytes.trimLeft s
    let name := s.takeWhile isWordByte
    if name.isEmpty then none
    else
      match Bytes.trimLeft (s.drop name.length) with
      | 0x3D :: s =>
        (value? (Bytes.trimLeft s)).map fun (value, rest) => ((Bytes.lower name, value), rest)
      | _ => none
  | _ => none

/-- The parameters of a text. A semicolon that ends the text is no fault. `fuel` bounds their
number. -/
def paramsFrom : (fuel : Nat) → Bytes → Option (List (Bytes × Bytes))
  | 0, _ => some []
  | fuel + 1, s =>
    let s := s.trimLeft
    if s.isEmpty then some []
    else
      match param? s with
      | some (param, rest) => (paramsFrom fuel rest).map (param :: ·)
      | none => if s.trim == [0x3B] then some [] else none

/-- Whether no name has two different values. -/
def consistent : List (Bytes × Bytes) → Bool
  | [] => true
  | (name, value) :: params =>
    (params.all fun p => p.1 != name || p.2 == value) && consistent params

/-- The media type of a text. -/
def parse? (s : Bytes) : Option MediaType :=
  let front := s.takeWhile (· != 0x3B)
  let name := (Bytes.lower front).trim
  if !isName name then none
  else
    match paramsFrom (s.length + 1) (s.drop front.length) with
    | some params => if consistent params then some ⟨name, params⟩ else none
    | none => none

/-! ## Values in pieces -/

/-- A text with its percent escapes undone. -/
def unescape : Bytes → Option Bytes
  | [] => some []
  | 0x25 :: a :: b :: s =>
    match Bytes.hexValue? a, Bytes.hexValue? b with
    | some x, some y => (unescape s).map ((16 * x + y).toUInt8 :: ·)
    | _, _ => none
  | b :: s => if b == 0x25 then none else (unescape s).map (b :: ·)

/-- A value that names its character set and language: `utf-8'en'text`. -/
def charsetValue? (s : Bytes) : Option Bytes := do
  let (charset, s) ← Bytes.cut? 0x27 s
  let (_, s) ← Bytes.cut? 0x27 s
  let charset := charset.lower
  if charset == Bytes.ofString "us-ascii" || charset == Bytes.ofString "utf-8" then unescape s
  else none

/-- The value that stands under a name as it was given. -/
def given? (m : MediaType) (name : Bytes) : Option Bytes :=
  (m.params.find? fun p => p.1 == name).map Prod.snd

/-- The pieces of a value from a number on, each the text that it adds. -/
def pieces (m : MediaType) (name : Bytes) : (fuel n : Nat) → List Bytes
  | 0, _ => []
  | fuel + 1, n =>
    let key := name ++ 0x2A :: Bytes.ofInt n
    match m.given? key with
    | some value => value :: pieces m name fuel (n + 1)
    | none =>
      match m.given? (key ++ [0x2A]) with
      | some value =>
        let text := if n == 0 then charsetValue? value else unescape value
        text.getD [] :: pieces m name fuel (n + 1)
      | none => []

/-- The value of a parameter. Pieces count more than a plain value. -/
def param (m : MediaType) (name : Bytes) : Option Bytes :=
  match m.given? (name ++ [0x2A]) with
  | some value => (charsetValue? value).or (m.given? name)
  | none =>
    match m.pieces name m.params.length 0 with
    | [] => m.given? name
    | pieces => some pieces.flatten

end MediaType

end ClassOutline.Http
