/-!
# Byte text

Everything this library reads and writes is a sequence of bytes. Source files, paths and messages
are usually UTF-8, but none of the extraction rules needs that, so text is kept as it comes and
characters are a view of it (`ClassOutline.Text.Rune`).

The module holds the byte classes that the extraction rules speak of, and the few list operations
on text that the library uses throughout.
-/

namespace ClassOutline

/-- Text: a sequence of bytes, which need not be UTF-8. -/
abbrev Bytes := List UInt8

namespace Bytes

/-! ## Building text -/

/-- The UTF-8 form of a code point. Numbers that are no Unicode scalar value are written as the
replacement character U+FFFD. -/
def ofCodePoint (n : Nat) : Bytes :=
  if n < 0x80 then [n.toUInt8]
  else if n < 0x800 then [(0xC0 + n / 0x40).toUInt8, (0x80 + n % 0x40).toUInt8]
  else if (0xD800 ≤ n ∧ n < 0xE000) ∨ 0x110000 ≤ n then [0xEF, 0xBF, 0xBD]
  else if n < 0x10000 then
    [(0xE0 + n / 0x1000).toUInt8, (0x80 + n / 0x40 % 0x40).toUInt8, (0x80 + n % 0x40).toUInt8]
  else
    [(0xF0 + n / 0x40000).toUInt8, (0x80 + n / 0x1000 % 0x40).toUInt8,
      (0x80 + n / 0x40 % 0x40).toUInt8, (0x80 + n % 0x40).toUInt8]

/-- The UTF-8 form of a string. -/
def ofString (s : String) : Bytes := s.toList.flatMap fun c => ofCodePoint c.toNat

/-- A number in decimal, with a sign only when it is negative. -/
def ofInt (n : Int) : Bytes :=
  let digits := (Nat.toDigits 10 n.natAbs).map fun c => c.toNat.toUInt8
  if n < 0 then 0x2D :: digits else digits

/-! ## Byte classes -/

/-- White space between the words of a declaration: tab, newline, form feed, carriage return and
space. Vertical tab and the wide spaces of Unicode are not among them. -/
def isSpace (b : UInt8) : Bool := b == 9 || b == 10 || b == 12 || b == 13 || b == 32

/-- A decimal digit. -/
def isDigit (b : UInt8) : Bool := 48 ≤ b && b ≤ 57

/-- An ASCII letter. -/
def isLetter (b : UInt8) : Bool := (65 ≤ b && b ≤ 90) || (97 ≤ b && b ≤ 122)

/-- A byte of a word: an ASCII letter, a digit or an underscore. -/
def isWord (b : UInt8) : Bool := isLetter b || isDigit b || b == 95

/-- The value of a hexadecimal digit of either case. -/
def hexValue? (b : UInt8) : Option Nat :=
  if isDigit b then some (b.toNat - 48)
  else if 97 ≤ b && b ≤ 102 then some (b.toNat - 87)
  else if 65 ≤ b && b ≤ 70 then some (b.toNat - 55)
  else none

/-- The lower-case form of an ASCII letter; every other byte is kept. -/
def lowerByte (b : UInt8) : UInt8 := if 65 ≤ b && b ≤ 90 then b + 32 else b

/-! ## Cutting and joining -/

/-- The pieces of a text between occurrences of a separator: one more than there are separators. -/
def split (sep : UInt8) : Bytes → List Bytes
  | [] => [[]]
  | b :: s =>
    if b == sep then [] :: split sep s
    else
      match split sep s with
      | [] => [[b]]
      | piece :: pieces => (b :: piece) :: pieces

/-- The pieces with a separator text between neighbours. -/
def join (sep : Bytes) : List Bytes → Bytes
  | [] => []
  | [piece] => piece
  | piece :: pieces => piece ++ sep ++ join sep pieces

/-- The text before and after the first occurrence of a byte, which is in neither. -/
def cut? (sep : UInt8) (s : Bytes) : Option (Bytes × Bytes) :=
  match s.dropWhile (· != sep) with
  | [] => none
  | _ :: after => some (s.takeWhile (· != sep), after)

/-- Whether one text stands somewhere inside another. -/
def contains (part : Bytes) : Bytes → Bool
  | [] => part.isEmpty
  | b :: s => part.isPrefixOf (b :: s) || contains part s

/-- The text without a given ending, or the text itself when it does not end so. -/
def dropEnding (ending s : Bytes) : Bytes :=
  if ending.isSuffixOf s then s.take (s.length - ending.length) else s

/-- The text without the bytes of a class at its end. -/
def dropWhileEnd (p : UInt8 → Bool) (s : Bytes) : Bytes := (s.reverse.dropWhile p).reverse

/-- The byte order of texts: the first difference decides, and a proper beginning comes first. -/
def before : Bytes → Bytes → Bool
  | _, [] => false
  | [], _ :: _ => true
  | a :: s, b :: t => a < b || (a == b && before s t)

/-- Every occurrence of one non-empty text replaced by another, from the left and without
overlap. -/
def replace (old new : Bytes) (s : Bytes) : Bytes := go 0 s
where
  go : Nat → Bytes → Bytes
    | _, [] => []
    | skip + 1, _ :: t => go skip t
    | 0, b :: t =>
      if !old.isEmpty && old.isPrefixOf (b :: t) then new ++ go (old.length - 1) t else b :: go 0 t

end Bytes

end ClassOutline
