import ClassOutline.Text.Rune

/-!
# The characters of a YAML text

A byte order mark tells the encoding of a text: UTF-16 of either byte order, and UTF-8 otherwise. The
text is decoded in windows of 512 bytes, each when its characters are first asked for, and a
character that may not stand in a text spoils its window. So a fault far behind the part that is
read does no harm.

* `Windows.of`: the windows of a text.
-/

namespace ClassOutline.Yaml

/-- The encodings of a text. -/
inductive Encoding where
  | utf8
  | utf16 (bigEndian : Bool)
deriving DecidableEq, Repr

namespace Encoding

/-- The encoding of a text, and the length of the mark that tells it. -/
def ofMark : Bytes → Encoding × Nat
  | 0xFF :: 0xFE :: _ => (.utf16 false, 2)
  | 0xFE :: 0xFF :: _ => (.utf16 true, 2)
  | 0xEF :: 0xBB :: 0xBF :: _ => (.utf8, 3)
  | _ => (.utf8, 0)

end Encoding

/-- How many bytes the UTF-8 sequence has that begins with a byte; zero where none does. -/
def sequenceLength (b : UInt8) : Nat :=
  if b < 0x80 then 1
  else if b < 0xC0 then 0
  else if b < 0xE0 then 2
  else if b < 0xF0 then 3
  else if b < 0xF8 then 4
  else 0

/-- Characters that may stand in a text. -/
def isTextCode (n : Nat) : Bool :=
  n == 9 || n == 10 || n == 13 || (0x20 ≤ n && n ≤ 0x7E) || n == 0x85 || (0xA0 ≤ n && n ≤ 0xD7FF) ||
    (0xE000 ≤ n && n ≤ 0xFFFD) || (0x10000 ≤ n && n ≤ 0x10FFFF)

/-- What stands at the front of some bytes. -/
inductive Front where
  /-- A character of so many bytes. -/
  | char (c : Char) (size : Nat)
  /-- The beginning of a character. -/
  | incomplete
  /-- Nothing that may stand in a text. -/
  | malformed
deriving DecidableEq, Repr

namespace Front

/-- A code point as a character, if it may stand in a text. -/
def ofCode (code size : Nat) : Front :=
  if isTextCode code then .char (Char.ofNat code) size else .malformed

/-- The front of a text in UTF-8. -/
def utf8 (b : UInt8) (s : Bytes) : Front :=
  let size := sequenceLength b
  if size == 0 then .malformed
  else if (s.take 3).length + 1 < size then .incomplete
  else
    let r := Rune.read b s
    if r.isInvalid then .malformed else ofCode r.code size

/-- A unit of UTF-16. -/
def unit (bigEndian : Bool) (a b : UInt8) : Nat :=
  if bigEndian then 256 * a.toNat + b.toNat else 256 * b.toNat + a.toNat

/-- The front of a text in UTF-16. -/
def utf16 (bigEndian : Bool) : Bytes → Front
  | a :: b :: s =>
    let high := unit bigEndian a b
    if high / 0x400 == 0x37 then .malformed
    else if high / 0x400 == 0x36 then
      match s with
      | c :: d :: _ =>
        let low := unit bigEndian c d
        if low / 0x400 == 0x37 then ofCode (0x10000 + high % 0x400 * 0x400 + low % 0x400) 4
        else .malformed
      | _ => .incomplete
    else ofCode high 2
  | _ => .incomplete

end Front

/-- What stands at the front of a text that is not empty. -/
def Encoding.front (e : Encoding) (b : UInt8) (s : Bytes) : Front :=
  match e with
  | .utf8 => .utf8 b s
  | .utf16 bigEndian => .utf16 bigEndian (b :: s)

/-- The characters of some bytes after the first `skip`, in front of `done`, and the bytes of a last
one that is not complete. -/
def decodeFrom (e : Encoding) : (skip : Nat) → (done : List Char) → Bytes → Option (List Char × Bytes)
  | _, done, [] => some (done.reverse, [])
  | skip + 1, done, _ :: s => decodeFrom e skip done s
  | 0, done, b :: s =>
    match e.front b s with
    | .char c size => decodeFrom e (size - 1) (c :: done) s
    | .incomplete => some (done.reverse, b :: s)
    | .malformed => none

/-- A text in windows. -/
structure Windows where
  /-- The characters of each sound window. -/
  parts : List (List Char) := []
  /-- Whether the text ends behind them, and no spoilt window follows. -/
  sound : Bool := true
deriving DecidableEq, Repr

namespace Windows

/-- The bytes of a window. -/
def size : Nat := 512

/-- The windows of the bytes not read yet, behind those of a character that is not complete. -/
def after (e : Encoding) : (fuel : Nat) → (held unread : Bytes) → Windows
  | 0, _, _ => {}
  | fuel + 1, held, unread =>
    if unread.isEmpty then { sound := held.isEmpty }
    else
      let room := size - held.length
      match decodeFrom e 0 [] (held ++ unread.take room) with
      | none => { sound := false }
      | some (chars, held) =>
        let later := after e fuel held (unread.drop room)
        { later with parts := chars :: later.parts }

/-- The windows of a text, without the mark in front. -/
def of (text : Bytes) : Windows :=
  let (e, mark) := Encoding.ofMark text
  match decodeFrom e 0 [] ((text.take size).drop mark) with
  | none => { sound := false }
  | some (chars, held) =>
    let later := after e (text.length + 1) held (text.drop size)
    { later with parts := chars :: later.parts }

end Windows

end ClassOutline.Yaml
