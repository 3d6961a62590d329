import ClassOutline.Number.Binary64

/-!
# Integer literals

An integer on the command line may be written as in a program: with a sign, in base two, eight or
sixteen behind a mark, in base eight behind a zero, and with underscores between digits.
-/

namespace ClassOutline.Number

/-- Why a text is no integer literal of 64 bits. -/
inductive LiteralFault where
  | malformed
  | outOfRange
deriving DecidableEq, Repr

/-- The fault in words. -/
def LiteralFault.text : LiteralFault → String
  | .malformed => "invalid syntax"
  | .outOfRange => "value out of range"

/-- The base of a literal without sign, and its digits. -/
def literalBase (s : Bytes) : Nat × Bytes :=
  match s with
  | 0x30 :: mark :: d :: rest =>
    let mark' := Bytes.lowerByte mark
    if mark' == 0x62 then (2, d :: rest)
    else if mark' == 0x6F then (8, d :: rest)
    else if mark' == 0x78 then (16, d :: rest)
    else (8, mark :: d :: rest)
  | 0x30 :: rest => (8, rest)
  | _ => (10, s)

/-- The value of digits with underscores among them, onto what stands before them. The first fault
from the left counts. -/
def magnitude (base : Nat) : (n : Nat) → Bytes → Except LiteralFault Nat
  | n, [] => .ok n
  | n, b :: s =>
    if b == 0x5F then magnitude base n s
    else
      match Bytes.hexValue? b with
      | none => .error .malformed
      | some d =>
        if base ≤ d then .error .malformed
        else if Nat.pow 2 64 ≤ base * n + d then .error .outOfRange
        else magnitude base (base * n + d) s

/-- Whether the underscores of a literal without sign stand between digits. The mark of a base counts
as a digit. -/
def literalUnderscoresFit (s : Bytes) : Bool :=
  match s with
  | 0x30 :: mark :: rest =>
    let mark' := Bytes.lowerByte mark
    if mark' == 0x78 then Binary64.underscoresFit (fun b => (Bytes.hexValue? b).isSome) .digit rest
    else if mark' == 0x62 || mark' == 0x6F then Binary64.underscoresFit Bytes.isDigit .digit rest
    else Binary64.underscoresFit Bytes.isDigit .other s
  | _ => Binary64.underscoresFit Bytes.isDigit .other s

/-- The integer of a literal. -/
def literal (s : Bytes) : Except LiteralFault Int :=
  let (negative, body) := sign s
  if body.isEmpty then .error .malformed
  else
    let (base, digits) := literalBase body
    match magnitude base 0 digits with
    | .error fault => .error fault
    | .ok n =>
      let value : Int := if negative then -n else n
      if !literalUnderscoresFit body then .error .malformed
      else if fitsInt64 value then .ok value
      else .error .outOfRange

end ClassOutline.Number
