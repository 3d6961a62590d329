import ClassOutline.Text.Printable

/-!
# Quoted text

Messages quote a text between double quotes. A quote, a backslash and whatever leaves no mark is
written as an escape: the seven short ones for the usual control characters, two hexadecimal digits
for other control characters and for bytes outside every valid sequence, and four or eight digits
for the rest.
-/

namespace ClassOutline

/-- The letter of the short escape of a code point. -/
def Rune.shortEscape? (code : Nat) : Option UInt8 :=
  if code == 0x22 then some 0x22
  else if code == 0x5C then some 0x5C
  else if code == 7 then some 0x61
  else if code == 8 then some 0x62
  else if code == 12 then some 0x66
  else if code == 10 then some 0x6E
  else if code == 13 then some 0x72
  else if code == 9 then some 0x74
  else if code == 11 then some 0x76
  else none

namespace Bytes

/-- A number as a given count of hexadecimal digits in lower case. -/
def hexDigits : (count : Nat) → (n : Nat) → Bytes
  | 0, _ => []
  | count + 1, n =>
    let d := n / Nat.pow 16 count % 16
    (if d < 10 then (48 + d).toUInt8 else (87 + d).toUInt8) :: hexDigits count n

/-- A character between quotes. -/
def quotedRune (r : Rune) : Bytes :=
  match Rune.shortEscape? r.code with
  | some letter => [0x5C, letter]
  | none =>
    if r.isInvalid then [0x5C, 0x78] ++ r.bytes.flatMap fun b => hexDigits 2 b.toNat
    else if Rune.isPrintableCode r.code then r.bytes
    else if r.code < 0x80 then [0x5C, 0x78] ++ hexDigits 2 r.code
    else if r.code < 0x10000 then [0x5C, 0x75] ++ hexDigits 4 r.code
    else [0x5C, 0x55] ++ hexDigits 8 r.code

/-- A text in quotes. -/
def quoted (s : Bytes) : Bytes := 0x22 :: (s.runes.flatMap quotedRune ++ [0x22])

end Bytes

end ClassOutline
