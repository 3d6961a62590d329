import ClassOutline.Text.Bytes

/-!
# Integers in text

Decimal integers of a configuration value: an optional sign and digits, nothing else, and no number
that needs more than 64 bits with a sign.
-/

namespace ClassOutline.Number

/-- The least and the greatest integer of 64 bits with a sign. -/
def minInt64 : Int := -Nat.pow 2 63

/-- The greatest integer of 64 bits with a sign. -/
def maxInt64 : Int := Nat.pow 2 63 - 1

/-- The number that digits of a base stand for. Bytes that are no digits count as zero. -/
def ofDigits (base : Nat) (s : Bytes) : Nat :=
  s.foldl (fun n b => base * n + (Bytes.hexValue? b).getD 0) 0

/-- A number without a sign: digits only, and at least one. -/
def nat? (s : Bytes) : Option Nat :=
  if !s.isEmpty && s.all Bytes.isDigit then some (ofDigits 10 s) else none

/-- Whether a number has 64 bits with its sign. -/
def fitsInt64 (n : Int) : Bool := minInt64 ≤ n && n ≤ maxInt64

/-- The sign of a text and what follows it: whether a minus stands in front, and the rest. -/
def sign : Bytes → Bool × Bytes
  | b :: s => if b == 0x2D then (true, s) else if b == 0x2B then (false, s) else (false, b :: s)
  | [] => (false, [])

/-- An integer of 64 bits: an optional sign and decimal digits. -/
def int64? (s : Bytes) : Option Int := do
  let (negative, digits) := sign s
  let n ← nat? digits
  let value : Int := if negative then -n else n
  if fitsInt64 value then some value else none

end ClassOutline.Number
