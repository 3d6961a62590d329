import ClassOutline.Text.Bytes

/-!
# Characters of a text

A text is read as UTF-8 one character at a time. A byte that begins no valid sequence is a
character of its own, with the code of the replacement character U+FFFD, so every text has exactly
one reading and no byte is lost: the bytes of the characters, put together, are the text.
-/

namespace ClassOutline

/-- One character of a text: its code point and the bytes it was read from. -/
structure Rune where
  code : Nat
  bytes : Bytes
deriving DecidableEq, Repr

namespace Rune

/-- The code point that stands for a byte outside every valid sequence. -/
def replacement : Nat := 0xFFFD

/-- Whether a byte lies between two bounds. -/
def within (low high : Nat) (b : UInt8) : Bool := low ≤ b.toNat && b.toNat ≤ high

/-- The low six bits that a continuation byte carries. -/
def payload (b : UInt8) : Nat := b.toNat % 64

/-- The least and the greatest second byte that may follow a leading byte of three or four: the
bounds exclude overlong forms, surrogates and numbers above U+10FFFF. -/
def secondBounds (lead : UInt8) : Nat × Nat :=
  if lead == 0xE0 then (0xA0, 0xBF)
  else if lead == 0xED then (0x80, 0x9F)
  else if lead == 0xF0 then (0x90, 0xBF)
  else if lead == 0xF4 then (0x80, 0x8F)
  else (0x80, 0xBF)

/-- The character at the front of a text whose first byte is `b`. -/
def read (b : UInt8) (s : Bytes) : Rune :=
  let invalid : Rune := ⟨replacement, [b]⟩
  let (low, high) := secondBounds b
  if b < 0x80 then ⟨b.toNat, [b]⟩
  else if within 0xC2 0xDF b then
    match s with
    | c :: _ =>
      if within 0x80 0xBF c then ⟨b.toNat % 32 * 64 + payload c, [b, c]⟩ else invalid
    | [] => invalid
  else if within 0xE0 0xEF b then
    match s with
    | c :: d :: _ =>
      if within low high c && within 0x80 0xBF d then
        ⟨(b.toNat % 16 * 64 + payload c) * 64 + payload d, [b, c, d]⟩
      else invalid
    | _ => invalid
  else if within 0xF0 0xF4 b then
    match s with
    | c :: d :: e :: _ =>
      if within low high c && within 0x80 0xBF d && within 0x80 0xBF e then
        ⟨((b.toNat % 8 * 64 + payload c) * 64 + payload d) * 64 + payload e, [b, c, d, e]⟩
      else invalid
    | _ => invalid
  else invalid

/-- A character read from a byte outside every valid sequence. -/
def isInvalid (r : Rune) : Bool :=
  match r.bytes with
  | [b] => 0x80 ≤ b
  | _ => false

end Rune

namespace Bytes

/-- The characters of a text, after the first `skip` bytes. -/
def runesFrom : (skip : Nat) → Bytes → List Rune
  | _, [] => []
  | skip + 1, _ :: s => runesFrom skip s
  | 0, b :: s =>
    let r := Rune.read b s
    r :: runesFrom (r.bytes.length - 1) s

/-- The characters of a text. -/
def runes (s : Bytes) : List Rune := runesFrom 0 s

/-- The text that a list of characters was read from. -/
def ofRunes (rs : List Rune) : Bytes := rs.flatMap Rune.bytes

/-- Whether a text is UTF-8 throughout. -/
def isUtf8 (s : Bytes) : Bool := s.runes.all fun r => !r.isInvalid

/-- The text in UTF-8, with the replacement character in place of each invalid byte. -/
def toUtf8 (s : Bytes) : Bytes := s.runes.flatMap fun r => ofCodePoint r.code

end Bytes

end ClassOutline
