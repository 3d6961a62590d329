import ClassOutline.Number.Decimal

/-!
# Binary floating point

Numbers of 64-bit binary floating point, kept as sign, mantissa and exponent so that every operation
is exact integer arithmetic followed by one rounding to the nearest number, with ties to the even
mantissa.

* `Binary64.ofRatio?`: the number nearest to a fraction, unless that is out of range.
* `Binary64.parse?`: the number that a text stands for.
* `Binary64.text`: the fewest digits that read back as the same number.
-/

namespace ClassOutline.Number

/-- A number of 64-bit binary floating point. A finite one is `± mantissa * 2 ^ exponent`, where the
mantissa is below `2 ^ 53`, and at least `2 ^ 52` unless the exponent is the least one. -/
inductive Binary64 where
  | nan
  | infinite (negative : Bool)
  | finite (negative : Bool) (mantissa : Nat) (exponent : Int)
deriving DecidableEq, Repr

/-- The nearest integer to `n / d`; a tie goes to the even one. -/
def roundDiv (n d : Nat) : Nat :=
  let q := n / d
  let r := n % d
  if d < 2 * r || (2 * r == d && q % 2 == 1) then q + 1 else q

/-- Numerator and denominator of `num / den / 2 ^ e`. -/
def scaleDown (num den : Nat) (e : Int) : Nat × Nat :=
  if 0 ≤ e then (num, den * Nat.pow 2 e.toNat) else (num * Nat.pow 2 (-e).toNat, den)

namespace Binary64

/-- Zero. -/
def zero : Binary64 := .finite false 0 (-1074)

/-- The least exponent of a finite number. -/
def minExponent : Int := -1074

/-- The greatest exponent of a finite number. -/
def maxExponent : Int := 971

/-- The mantissa and exponent nearest to a positive fraction, whatever the exponent. -/
def nearest (num den : Nat) : Nat × Int :=
  let guess : Int := (num.log2 : Int) - den.log2 - 52
  let (n, d) := scaleDown num den guess
  let exact := if n / d < Nat.pow 2 52 then guess - 1 else guess
  let e := max exact minExponent
  let (n, d) := scaleDown num den e
  let m := roundDiv n d
  if m == Nat.pow 2 53 then (Nat.pow 2 52, e + 1) else (m, e)

/-- The number nearest to the fraction `num / den`, unless that is beyond all finite numbers. -/
def ofRatio? (negative : Bool) (num den : Nat) : Option Binary64 :=
  if num == 0 then some (.finite negative 0 minExponent)
  else
    let (m, e) := nearest num den
    if maxExponent < e then none else some (.finite negative m e)

/-- The fraction of a finite number's size; zero for the others. -/
def ratio : Binary64 → Nat × Nat
  | .finite _ m e => if 0 ≤ e then (m * Nat.pow 2 e.toNat, 1) else (m, Nat.pow 2 (-e).toNat)
  | _ => (0, 1)

/-- Whether a number is below zero. Zero with a minus sign is not, and neither is no number. -/
def isNegative : Binary64 → Bool
  | .nan => false
  | .infinite negative => negative
  | .finite negative m _ => negative && m != 0

/-- Whether a number is above zero. -/
def isPositive : Binary64 → Bool
  | .nan => false
  | .infinite negative => !negative
  | .finite negative m _ => !negative && m != 0

/-- Whether a number is at least zero. -/
def isNonNegative (x : Binary64) : Bool := x != .nan && !x.isNegative

/-- The integer part of a number, toward zero, as a word of 64 bits: what does not fit becomes the
least word. -/
def truncate : Binary64 → Int
  | .finite negative m e =>
    let (n, d) := ratio (.finite negative m e)
    let size : Int := n / d
    let value := if negative then -size else size
    if fitsInt64 value then value else minInt64
  | _ => minInt64

/-! ## Reading -/

/-- Whether one text is the other in any letter case. -/
def isWordOf (word : String) (s : Bytes) : Bool := s.map Bytes.lowerByte == Bytes.ofString word

/-- The names of infinity and of no number, in any letter case; infinity may have a sign. -/
def named? (s : Bytes) : Option Binary64 :=
  let (negative, rest) := sign s
  if isWordOf "inf" rest || isWordOf "infinity" rest then some (.infinite negative)
  else if isWordOf "nan" s then some .nan
  else none

/-- What was seen last while underscores are checked. -/
inductive Seen where
  | digit
  | underscore
  | other
deriving DecidableEq

/-- Whether every underscore stands between digits. -/
def underscoresFit (isDigit : UInt8 → Bool) : Seen → Bytes → Bool
  | seen, [] => seen != .underscore
  | seen, b :: s =>
    if isDigit b then underscoresFit isDigit .digit s
    else if b == 0x5F then seen == .digit && underscoresFit isDigit .underscore s
    else seen != .underscore && underscoresFit isDigit .other s

/-- The exponent behind its mark: an optional sign and digits. Its size is not told apart from
about ten thousand on. -/
def exponent? (s : Bytes) : Option Int := do
  let (negative, s) := sign s
  let first ← s.head?
  guard (Bytes.isDigit first && s.all fun b => Bytes.isDigit b || b == 0x5F)
  let step (n : Nat) (b : UInt8) : Nat :=
    if b == 0x5F || 10000 ≤ n then n else 10 * n + (b.toNat - 48)
  let size := s.foldl step 0
  return if negative then -size else size

/-- The digits of a number with an optional point and the text after them: the value of all digits
together, how many stand behind the point, and whether there are any. -/
def pointed (base : Nat) (isDigit : UInt8 → Bool) (s : Bytes) : Nat × Nat × Bool × Bytes :=
  let part (b : UInt8) : Bool := isDigit b || b == 0x5F
  let whole := (s.takeWhile part).filter isDigit
  let s := s.dropWhile part
  let (behind, s) :=
    match s with
    | 0x2E :: t => ((t.takeWhile part).filter isDigit, t.dropWhile part)
    | _ => ([], s)
  (ofDigits base (whole ++ behind), behind.length, !(whole ++ behind).isEmpty, s)

/-- The number nearest to `digits * 10 ^ exponent`. -/
def ofDecimal? (negative : Bool) (digits : Nat) (exponent : Int) : Option Binary64 :=
  let top : Int := (Nat.toDigits 10 digits).length + exponent
  if digits == 0 || top < -330 then ofRatio? negative 0 1
  else if 310 < top then none
  else if 0 ≤ exponent then ofRatio? negative (digits * Nat.pow 10 exponent.toNat) 1
  else ofRatio? negative digits (Nat.pow 10 (-exponent).toNat)

/-- The number nearest to `digits * 2 ^ exponent`. -/
def ofBinary? (negative : Bool) (digits : Nat) (exponent : Int) : Option Binary64 :=
  if 0 ≤ exponent then ofRatio? negative (digits * Nat.pow 2 exponent.toNat) 1
  else ofRatio? negative digits (Nat.pow 2 (-exponent).toNat)

/-- A hexadecimal number after its `0x`: digits with an optional point and a binary exponent, which
must not be missing. -/
def hex? (negative : Bool) (s : Bytes) : Option Binary64 := do
  let isHex (b : UInt8) : Bool := (Bytes.hexValue? b).isSome
  let (digits, behind, any, rest) := pointed 16 isHex s
  guard (any && underscoresFit isHex .digit s)
  let mark ← rest.head?
  guard (Bytes.lowerByte mark == 0x70)
  let e ← exponent? rest.tail
  ofBinary? negative digits (e - 4 * behind)

/-- A decimal number: digits with an optional point and an optional exponent. -/
def decimal? (negative : Bool) (s : Bytes) : Option Binary64 := do
  let (digits, behind, any, rest) := pointed 10 Bytes.isDigit s
  guard (any && underscoresFit Bytes.isDigit .other s)
  match rest with
  | [] => ofDecimal? negative digits (-behind)
  | mark :: rest =>
    guard (Bytes.lowerByte mark == 0x65)
    let e ← exponent? rest
    ofDecimal? negative digits (e - behind)

/-- The number that a text stands for; none where the text is no number or beyond all finite
numbers. -/
def parse? (s : Bytes) : Option Binary64 :=
  named? s <|>
    let (negative, rest) := sign s
    match rest with
    | 0x30 :: x :: y :: t =>
      if Bytes.lowerByte x == 0x78 then hex? negative (y :: t) else decimal? negative rest
    | _ => decimal? negative rest

/-! ## Writing -/

/-- The decimal exponent of the first digit of a positive fraction. -/
def decimalExponent (num den : Nat) : Int :=
  let guess : Int := (((num.log2 : Int) - den.log2 - 1) * 30103).fdiv 100000 - 1
  let below (x : Int) : Bool :=
    if 0 ≤ x then num < den * Nat.pow 10 x.toNat else num * Nat.pow 10 (-x).toNat < den
  (([guess, guess + 1, guess + 2].find? fun x => below (x + 1)).getD (guess + 3))

/-- The digits, as one number, and the exponent of their unit, of the nearest number with `n`
digits that reads back as the given mantissa and exponent; none where no such number does. -/
def withDigits? (m : Nat) (e : Int) (n : Nat) : Option (Nat × Int) :=
  let (num, den) := ratio (.finite false m (e - 2))
  let value := 4 * num
  let high := value + 2 * (num / m)
  let low := value - (if m == Nat.pow 2 52 && minExponent < e then num / m else 2 * (num / m))
  let unit := decimalExponent value den + 1 - n
  let (up, down) : Nat × Nat :=
    if 0 ≤ unit then (Nat.pow 10 unit.toNat, 1) else (1, Nat.pow 10 (-unit).toNat)
  let inside (c : Nat) : Bool :=
    let x := c * up * den
    if m % 2 == 0 then low * down ≤ x && x ≤ high * down else low * down < x && x < high * down
  let c := value * down / (up * den)
  let distance (c : Nat) : Int := ((c * up * den : Int) - value * down).natAbs
  let better (a b : Nat) : Nat :=
    if distance a < distance b || (distance a == distance b && a % 2 == 0) then a else b
  match inside c, inside (c + 1) with
  | true, true => some (better c (c + 1), unit)
  | true, false => some (c, unit)
  | false, true => some (c + 1, unit)
  | false, false => none

/-- The fewest digits that read back as a mantissa and exponent, of those the nearest, without
zeros at the end, and the exponent of the first one. -/
def shortest (m : Nat) (e : Int) : Bytes × Int :=
  let (c, unit) := ((List.range 17).findSome? fun i => withDigits? m e (i + 1)).getD (0, 0)
  let digits := (Nat.toDigits 10 c).map fun c => c.toNat.toUInt8
  (Bytes.dropWhileEnd (· == 0x30) digits, unit + digits.length - 1)

/-- An exponent with its sign and at least two digits. -/
def exponentText (x : Int) : Bytes :=
  let size := Bytes.ofInt x.natAbs
  (if x < 0 then 0x2D else 0x2B) :: (if size.length < 2 then 0x30 :: size else size)

/-- Digits with the first one at a decimal exponent: positional from `10 ^ -4` to below `10 ^ 6`,
with an exponent elsewhere. -/
def layout (digits : Bytes) (x : Int) : Bytes :=
  if x < -4 || 6 ≤ x then
    let behind := digits.drop 1
    digits.take 1 ++ (if behind.isEmpty then [] else 0x2E :: behind) ++ 0x65 :: exponentText x
  else if x < 0 then
    [0x30, 0x2E] ++ List.replicate (-x - 1).toNat 0x30 ++ digits
  else
    let whole := digits.take (x.toNat + 1)
    let behind := digits.drop (x.toNat + 1)
    whole ++ List.replicate (x.toNat + 1 - whole.length) 0x30 ++
      (if behind.isEmpty then [] else 0x2E :: behind)

/-- The text of a number: the fewest digits that read back as it. -/
def text : Binary64 → Bytes
  | .nan => Bytes.ofString "NaN"
  | .infinite false => Bytes.ofString "+Inf"
  | .infinite true => Bytes.ofString "-Inf"
  | .finite negative m e =>
    let size :=
      if m == 0 then [0x30]
      else
        let (digits, x) := shortest m e
        layout digits x
    if negative then 0x2D :: size else size

end Binary64

end ClassOutline.Number
