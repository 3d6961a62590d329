import ClassOutline.Number.Binary64

/-!
# What a plain scalar stands for

A plain scalar is a null, a truth value, a number, a date or time, or else a string. Each has a tag,
which is written in short form here (`!!int`, `!!str`).

A scalar can also carry a tag of its own. One of the standard tags has to fit the text; any other
makes the scalar a string with that tag.
-/

namespace ClassOutline.Yaml

open Number

/-- What a scalar stands for. -/
inductive Value where
  | null
  | bool (b : Bool)
  | int (n : Int)
  | float (x : Binary64)
  | timestamp
  | text (s : Bytes)
deriving DecidableEq, Repr

/-- The short form of a tag from its text. -/
def shortTag (tag : Bytes) : Bytes :=
  match (Bytes.ofString "tag:yaml.org,2002:").isPrefixOf? tag with
  | some suffix => Bytes.ofString "!!" ++ suffix
  | none => tag

namespace Tag

/-- The tag of null. -/
def null : Bytes := Bytes.ofString "!!null"

/-- The tag of truth values. -/
def bool : Bytes := Bytes.ofString "!!bool"

/-- The tag of integers. -/
def int : Bytes := Bytes.ofString "!!int"

/-- The tag of other numbers. -/
def float : Bytes := Bytes.ofString "!!float"

/-- The tag of dates and times. -/
def timestamp : Bytes := Bytes.ofString "!!timestamp"

/-- The tag of strings. -/
def str : Bytes := Bytes.ofString "!!str"

/-- The tag of bytes in base64. -/
def binary : Bytes := Bytes.ofString "!!binary"

/-- The tag of the key that merges another mapping. -/
def merge : Bytes := Bytes.ofString "!!merge"

/-- The tag of sequences. -/
def seq : Bytes := Bytes.ofString "!!seq"

/-- The tag of mappings. -/
def map : Bytes := Bytes.ofString "!!map"

end Tag

/-- The tag that a value has by itself. -/
def Value.tag : Value → Bytes
  | .null => Tag.null
  | .bool _ => Tag.bool
  | .int _ => Tag.int
  | .float _ => Tag.float
  | .timestamp => Tag.timestamp
  | .text _ => Tag.str

/-! ## Dates and times -/

/-- The days of a month. -/
def daysIn (year month : Nat) : Nat :=
  if month == 2 then
    if year % 4 == 0 && (year % 100 != 0 || year % 400 == 0) then 29 else 28
  else if month == 4 || month == 6 || month == 9 || month == 11 then 30
  else 31

/-- A number of one or two digits at the front of a text. -/
def shortNumber (s : Bytes) : Option (Nat × Bytes) :=
  let digits := (s.take 2).takeWhile Bytes.isDigit
  if digits.isEmpty then none else some (ofDigits 10 digits, s.drop digits.length)

/-- The text after a given byte. -/
def afterByte (b : UInt8) : Bytes → Option Bytes
  | [] => none
  | c :: s => if c == b then some s else none

/-- A date with four digits for the year, and the text after it. -/
def date (s : Bytes) : Option Bytes := do
  let year := s.take 4
  guard (year.length == 4 && year.all Bytes.isDigit)
  let s ← afterByte 0x2D (s.drop 4)
  let (month, s) ← shortNumber s
  guard (1 ≤ month && month ≤ 12)
  let s ← afterByte 0x2D s
  let (day, s) ← shortNumber s
  guard (1 ≤ day && day ≤ daysIn (ofDigits 10 year) month)
  return s

/-- A time of day with an optional fraction of a second, and the text after it. -/
def timeOfDay (s : Bytes) : Option Bytes := do
  let (hour, s) ← shortNumber s
  guard (hour < 24)
  let s ← afterByte 0x3A s
  let (minute, s) ← shortNumber s
  guard (minute < 60)
  let s ← afterByte 0x3A s
  let (second, s) ← shortNumber s
  guard (second < 60)
  match s with
  | point :: digit :: t =>
    if (point == 0x2E || point == 0x2C) && Bytes.isDigit digit then
      return t.dropWhile Bytes.isDigit
    else return s
  | _ => return s

/-- A time zone: the letter Z, or a sign with hours and minutes. -/
def isZone (s : Bytes) : Bool :=
  match s with
  | [0x5A] => true
  | [sign, a, b, 0x3A, c, d] =>
    (sign == 0x2B || sign == 0x2D) && [a, b, c, d].all Bytes.isDigit &&
      ofDigits 10 [a, b] ≤ 24 && ofDigits 10 [c, d] ≤ 60
  | _ => false

/-- Whether a text is a date, or a date and a time: with a zone after the letter T, without one
after spaces. -/
def isTimestamp (s : Bytes) : Bool :=
  match date s with
  | none => false
  | some [] => true
  | some (b :: s) =>
    if b == 0x54 || b == 0x74 then (timeOfDay s).any isZone
    else b == 0x20 && timeOfDay (s.dropWhile (· == 0x20)) == some []

/-! ## Numbers -/

/-- Whether every byte of a non-empty text is a digit of a base. -/
def areDigits (base : Nat) (s : Bytes) : Bool :=
  !s.isEmpty && s.all fun b => (Bytes.hexValue? b).any (· < base)

/-- A number without sign in one of the bases that its beginning tells: `0x`, `0o`, `0b`, or octal
after any other zero. -/
def prefixed? (s : Bytes) : Option Nat :=
  let inBase (base : Nat) (digits : Bytes) : Option Nat :=
    if areDigits base digits then some (ofDigits base digits) else none
  match s with
  | [0x30] => some 0
  | 0x30 :: x :: y :: t =>
    let mark := Bytes.lowerByte x
    if mark == 0x78 then inBase 16 (y :: t)
    else if mark == 0x6F then inBase 8 (y :: t)
    else if mark == 0x62 then inBase 2 (y :: t)
    else inBase 8 (x :: y :: t)
  | 0x30 :: t => inBase 8 t
  | _ => inBase 10 s

/-- An integer of 64 bits with an optional sign, or of 64 bits without sign, where a rule reads the
digits. -/
def integerBy (digits? : Bytes → Option Nat) (s : Bytes) : Option Int := do
  let (negative, digits) := sign s
  let n ← digits? digits
  let value : Int := if negative then -n else n
  let unsigned := digits.length == s.length && value < Nat.pow 2 64
  guard (fitsInt64 value || unsigned)
  return value

/-- An integer in binary or octal whose sign stands behind the mark of the base. -/
def markedInteger? (s : Bytes) : Option Int :=
  let inBase (base : Nat) (digits : Bytes) : Option Nat :=
    if areDigits base digits then some (ofDigits base digits) else none
  match s with
  | 0x30 :: 0x62 :: t => integerBy (inBase 2) t
  | 0x30 :: 0x6F :: t => integerBy (inBase 8) t
  | _ => none

/-- An integer in any base. -/
def integer? (s : Bytes) : Option Int := integerBy prefixed? s <|> markedInteger? s

/-- Whether a text has the form of a decimal number with a point or exponent. -/
def isDecimal (s : Bytes) : Bool :=
  let (_, s) := sign s
  let whole := s.takeWhile Bytes.isDigit
  let s := s.dropWhile Bytes.isDigit
  let (behind, point, s) : Bytes × Bool × Bytes :=
    match s with
    | 0x2E :: t => (t.takeWhile Bytes.isDigit, true, t.dropWhile Bytes.isDigit)
    | _ => ([], false, s)
  let exponentFits :=
    match s with
    | [] => true
    | e :: t => Bytes.lowerByte e == 0x65 && (nat? (sign t).2).isSome
  (if whole.isEmpty then point && !behind.isEmpty else true) && exponentFits

/-- The number that a text stands for, underscores left out. -/
def number? (s : Bytes) : Option Value :=
  let plain := s.filter (· != 0x5F)
  match integer? plain with
  | some n => some (.int n)
  | none => if isDecimal plain then (Binary64.parse? plain).map .float else none

/-! ## Resolution -/

/-- The words with a meaning of their own. -/
def word? (s : Bytes) : Option Value :=
  let among (words : List String) : Bool := words.any fun w => Bytes.ofString w == s
  if among ["true", "True", "TRUE"] then some (.bool true)
  else if among ["false", "False", "FALSE"] then some (.bool false)
  else if among ["", "~", "null", "Null", "NULL"] then some .null
  else if among [".nan", ".NaN", ".NAN"] then some (.float .nan)
  else if among [".inf", ".Inf", ".INF", "+.inf", "+.Inf", "+.INF"] then
    some (.float (.infinite false))
  else if among ["-.inf", "-.Inf", "-.INF"] then some (.float (.infinite true))
  else none

/-- What a text stands for by itself. Dates are looked for only where `dates` allows them. -/
def resolve (dates : Bool) (s : Bytes) : Value :=
  let typed : Option Value :=
    match s with
    | [] => none
    | b :: _ =>
      if b == 0x2E then (Binary64.parse? s).map .float
      else if Bytes.isDigit b || b == 0x2B || b == 0x2D then
        if dates && isTimestamp s then some .timestamp else number? s
      else none
  ((word? s) <|> typed).getD (.text s)

/-- What a scalar with a tag stands for; none where the text does not fit a standard tag. -/
def resolveTagged (tag s : Bytes) : Option Value :=
  if tag == Tag.str then some (.text s)
  else if [Tag.null, Tag.bool, Tag.int, Tag.float, Tag.timestamp].contains tag then
    let v := resolve (tag == Tag.timestamp) s
    if v.tag == tag then some v
    else
      match v with
      | .int n =>
        if tag == Tag.float && fitsInt64 n then (Binary64.ofRatio? (n < 0) n.natAbs 1).map .float
        else none
      | _ => none
  else some (.text s)

end ClassOutline.Yaml
