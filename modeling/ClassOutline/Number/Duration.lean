import ClassOutline.Number.Binary64

/-!
# Durations

A duration is written as a sequence of decimal numbers, each with a unit, such as `1h30m` or
`1.5s`, after an optional sign; a bare zero needs no unit. Its value is a number of nanoseconds of
64 bits with a sign. The fraction of a number is worked out in binary floating point and cut off,
as the format prescribes.
-/

namespace ClassOutline.Number.Duration

/-- The units and their length in nanoseconds. The micro sign and the Greek letter are both in
use. -/
def units : List (String × Nat) :=
  [("ns", 1), ("us", 1000), ("µs", 1000), ("μs", 1000), ("ms", 1000000), ("s", 1000000000),
    ("m", 60000000000), ("h", 3600000000000)]

/-- The length of a unit. -/
def unit? (name : Bytes) : Option Nat :=
  (units.find? fun u => Bytes.ofString u.1 == name).map Prod.snd

/-- The number of digits before a point, unless it exceeds `2 ^ 63`. -/
def whole? (s : Bytes) : Option Nat :=
  let n := ofDigits 10 s
  if n ≤ Nat.pow 2 63 then some n else none

/-- A fraction rounded to binary floating point, unless it is beyond all finite numbers. -/
def rounded? (num den : Nat) : Option (Nat × Nat) := (Binary64.ofRatio? false num den).map (·.ratio)

/-- The digits behind a point as a numerator and a power of ten, which is rounded to binary floating
point at each digit; there is none beyond all finite numbers. Digits that would take the numerator
beyond 63 bits are left out. -/
def fraction (s : Bytes) : Nat × Option Nat :=
  let step (acc : Nat × Option Nat × Bool) (b : UInt8) : Nat × Option Nat × Bool :=
    let (x, scale, full) := acc
    let y := 10 * x + (b.toNat - 48)
    if full || (Nat.pow 2 63 - 1) / 10 < x || Nat.pow 2 63 < y then (x, scale, true)
    else (y, scale.bind fun n => (rounded? (10 * n) 1).map fun r => r.1 / r.2, false)
  let (x, scale, _) := s.foldl step (0, some 1, false)
  (x, scale)

/-- The nanoseconds of a fraction of a unit: both the length of a step and the product are rounded
to binary floating point, and the result is cut off. -/
def fractionOf (x scale unit : Nat) : Nat :=
  let rounded (num den : Nat) : Nat × Nat := (rounded? num den).getD (0, 1)
  let (a, b) := rounded x 1
  let (c, d) := rounded unit scale
  let (n, m) := rounded (a * c) (b * d)
  n / m

/-- A byte of a number: a digit or a point. -/
def isNumberByte (b : UInt8) : Bool := Bytes.isDigit b || b == 0x2E

/-- The nanoseconds of one number with its unit, unless they exceed `2 ^ 63`, and the text after
it. -/
def term? (s : Bytes) : Option (Nat × Bytes) := do
  let before := s.takeWhile Bytes.isDigit
  let s := s.dropWhile Bytes.isDigit
  let n ← whole? before
  let (behind, s) : Bytes × Bytes :=
    match s with
    | 0x2E :: t => (t.takeWhile Bytes.isDigit, t.dropWhile Bytes.isDigit)
    | _ => ([], s)
  guard (!(before.isEmpty && behind.isEmpty))
  let length ← unit? (s.takeWhile fun b => !isNumberByte b)
  guard (n ≤ Nat.pow 2 63 / length)
  let (x, scale) := fraction behind
  let total := n * length + (scale.map fun scale => fractionOf x scale length).getD 0
  guard (total ≤ Nat.pow 2 63)
  return (total, s.dropWhile fun b => !isNumberByte b)

/-- The sum of the terms of a text, each at least one byte long, in words of 64 bits. -/
def sum? : (fuel total : Nat) → Bytes → Option Nat
  | _, total, [] => some total
  | 0, _, _ :: _ => none
  | fuel + 1, total, b :: s => do
    guard (isNumberByte b)
    let (n, rest) ← term? (b :: s)
    let total := (total + n) % Nat.pow 2 64
    guard (total ≤ Nat.pow 2 63)
    sum? fuel total rest

/-- The nanoseconds that a text stands for. -/
def parse? (s : Bytes) : Option Int := do
  let (negative, s) := sign s
  if s == [0x30] then return 0
  guard (!s.isEmpty)
  let total ← sum? s.length 0 s
  if negative then return -total
  guard (total < Nat.pow 2 63)
  return total

end ClassOutline.Number.Duration
