import ClassOutline.Text.Bytes

/-!
# Base64

The standard alphabet with padding. Reading skips line breaks and refuses everything else that is
no digit of the alphabet, and padding that is missing or in the wrong place.
-/

namespace ClassOutline.Base64

/-- The digit for a number below 64. -/
def digit (n : Nat) : UInt8 :=
  if n < 26 then (65 + n).toUInt8
  else if n < 52 then (71 + n).toUInt8
  else if n < 62 then (n - 4).toUInt8
  else if n == 62 then 0x2B
  else 0x2F

/-- The number that a digit stands for. -/
def value? (b : UInt8) : Option Nat :=
  if 65 ≤ b && b ≤ 90 then some (b.toNat - 65)
  else if 97 ≤ b && b ≤ 122 then some (b.toNat - 71)
  else if Bytes.isDigit b then some (b.toNat + 4)
  else if b == 0x2B then some 62
  else if b == 0x2F then some 63
  else none

/-- The text of some bytes. -/
def encode : Bytes → Bytes
  | [] => []
  | [a] =>
    let n := a.toNat * 16
    [digit (n / 64), digit (n % 64), 0x3D, 0x3D]
  | [a, b] =>
    let n := (a.toNat * 256 + b.toNat) * 4
    [digit (n / 4096), digit (n / 64 % 64), digit (n % 64), 0x3D]
  | a :: b :: c :: s =>
    let n := (a.toNat * 256 + b.toNat) * 256 + c.toNat
    digit (n / 262144) :: digit (n / 4096 % 64) :: digit (n / 64 % 64) :: digit (n % 64) :: encode s

/-- The bytes of a group of four digits, or of fewer at the end of a padded text. -/
def decodeGroup : List Nat → Bytes
  | [a, b, c, d] =>
    let n := ((a * 64 + b) * 64 + c) * 64 + d
    [(n / 65536).toUInt8, (n / 256).toUInt8, n.toUInt8]
  | [a, b, c] =>
    let n := (a * 64 + b) * 64 + c
    [(n / 1024).toUInt8, (n / 4).toUInt8]
  | [a, b] => [((a * 64 + b) / 16).toUInt8]
  | _ => []

/-- The bytes of a text without line breaks. -/
def decodeDigits : Bytes → Option Bytes
  | [] => some []
  | [a, b, 0x3D, 0x3D] => do return decodeGroup [← value? a, ← value? b]
  | [a, b, c, 0x3D] => do return decodeGroup [← value? a, ← value? b, ← value? c]
  | a :: b :: c :: d :: s => do
    let group := decodeGroup [← value? a, ← value? b, ← value? c, ← value? d]
    return group ++ (← decodeDigits s)
  | _ => none

/-- The bytes that a text stands for. -/
def decode (s : Bytes) : Option Bytes := decodeDigits (s.filter fun b => b != 10 && b != 13)

end ClassOutline.Base64
