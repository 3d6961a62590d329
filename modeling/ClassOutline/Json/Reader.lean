import ClassOutline.Json.Basic

/-!
# Reading JSON

`Json.read` takes one value from the front of a text and leaves the rest. A text that breaks off
inside a value is told apart from one that no continuation could make valid, since the reader of a
limited body has to know whether more bytes could have helped.
-/

namespace ClassOutline.Json

/-- Why no value could be read. -/
inductive Fault where
  /-- The text ends inside a value. -/
  | incomplete
  /-- A byte stands where none of its kind may. -/
  | invalid
deriving DecidableEq, Repr

/-- The outcome of reading something from the front of a text. -/
abbrev Reading (α : Type) := Except Fault (α × Bytes)

/-- White space between tokens. -/
def isSpace (b : UInt8) : Bool := b == 9 || b == 10 || b == 13 || b == 32

/-- The text after white space. -/
def skipSpace (s : Bytes) : Bytes := s.dropWhile isSpace

/-- The text after a fixed beginning. -/
def expect : Bytes → Bytes → Except Fault Bytes
  | [], s => .ok s
  | _ :: _, [] => .error .incomplete
  | b :: text, c :: s => if b == c then expect text s else .error .invalid

/-! ## Strings -/

/-- The byte that a one-letter escape stands for. -/
def shortEscape? (b : UInt8) : Option UInt8 :=
  if b == 0x22 || b == 0x5C || b == 0x2F then some b
  else if b == 0x62 then some 8
  else if b == 0x66 then some 12
  else if b == 0x6E then some 10
  else if b == 0x72 then some 13
  else if b == 0x74 then some 9
  else none

/-- Reversed text with a waiting high surrogate written as the replacement character. -/
def flush (pending : Option Nat) (acc : Bytes) : Bytes :=
  match pending with
  | some _ => (Bytes.ofCodePoint Rune.replacement).reverse ++ acc
  | none => acc

/-- Reversed text with one more unit of an escape. A high surrogate waits for the low one that
makes a pair of it; a surrogate without its partner becomes the replacement character. -/
def pushUnit (pending : Option Nat) (acc : Bytes) (unit : Nat) : Option Nat × Bytes :=
  if 0xDC00 ≤ unit && unit < 0xE000 then
    match pending with
    | some high =>
      let code := 0x10000 + (high - 0xD800) * 0x400 + (unit - 0xDC00)
      (none, (Bytes.ofCodePoint code).reverse ++ acc)
    | none => (none, (Bytes.ofCodePoint Rune.replacement).reverse ++ acc)
  else if 0xD800 ≤ unit && unit < 0xDC00 then (some unit, flush pending acc)
  else (none, (Bytes.ofCodePoint unit).reverse ++ flush pending acc)

/-- Whether a text that breaks off could still become four hexadecimal digits. -/
def brokenHex (s : Bytes) : Fault :=
  if (s.take 4).all fun b => (Bytes.hexValue? b).isSome then .incomplete else .invalid

/-- The rest of a string after its opening quote. `acc` is what was read, reversed. -/
def stringTail (pending : Option Nat) (acc : Bytes) : Bytes → Reading Bytes
  | [] => .error .incomplete
  | 0x22 :: s => .ok (Bytes.toUtf8 (flush pending acc).reverse, s)
  | 0x5C :: 0x75 :: a :: b :: c :: d :: s =>
    match Bytes.hexValue? a, Bytes.hexValue? b, Bytes.hexValue? c, Bytes.hexValue? d with
    | some a, some b, some c, some d =>
      let (pending, acc) := pushUnit pending acc (((a * 16 + b) * 16 + c) * 16 + d)
      stringTail pending acc s
    | _, _, _, _ => .error .invalid
  | 0x5C :: 0x75 :: s => .error (brokenHex s)
  | 0x5C :: e :: s =>
    match shortEscape? e with
    | some b => stringTail none (b :: flush pending acc) s
    | none => .error .invalid
  | [0x5C] => .error .incomplete
  | b :: s => if b < 0x20 then .error .invalid else stringTail none (b :: flush pending acc) s

/-! ## Numbers -/

/-- The digits at the front of a text, of which there is at least one. -/
def digits1 (s : Bytes) : Reading Bytes :=
  match s with
  | [] => .error .incomplete
  | b :: _ =>
    if Bytes.isDigit b then .ok (s.takeWhile Bytes.isDigit, s.dropWhile Bytes.isDigit)
    else .error .invalid

/-- The integer part of a number: a zero, or digits that do not begin with one. -/
def wholePart (s : Bytes) : Reading Bytes :=
  match s with
  | 0x30 :: s => .ok ([0x30], s)
  | _ => digits1 s

/-- The optional fraction of a number. -/
def fraction (s : Bytes) : Reading Bytes :=
  match s with
  | 0x2E :: s => (digits1 s).map fun (ds, s) => (0x2E :: ds, s)
  | _ => .ok ([], s)

/-- The optional exponent of a number. -/
def exponent (s : Bytes) : Reading Bytes :=
  match s with
  | e :: s' =>
    if e == 0x65 || e == 0x45 then
      let (sign, s) := match s' with
        | b :: t => if b == 0x2B || b == 0x2D then ([b], t) else ([], s')
        | [] => ([], [])
      (digits1 s).map fun (ds, s) => (e :: sign ++ ds, s)
    else .ok ([], s)
  | [] => .ok ([], s)

/-- A number, as its text. -/
def number (s : Bytes) : Except Fault (Bytes × Bytes) := do
  let (sign, s) : Bytes × Bytes := match s with
    | 0x2D :: t => ([0x2D], t)
    | _ => ([], s)
  let (whole, s) ← wholePart s
  let (frac, s) ← fraction s
  let (exp, s) ← exponent s
  return (sign ++ whole ++ frac ++ exp, s)

/-! ## Values -/

/-- How many arrays and objects may stand inside one another. -/
def maxDepth : Nat := 10000

mutual

/-- The value at the front of a text. `fuel` bounds the number of steps and `depth` the nesting
that is still allowed. -/
def value (fuel depth : Nat) (s : Bytes) : Reading Json :=
  match fuel with
  | 0 => .error .incomplete
  | fuel + 1 =>
    match skipSpace s with
    | [] => .error .incomplete
    | 0x22 :: s => (stringTail none [] s).map fun (text, s) => (.str text, s)
    | 0x5B :: s =>
      match depth with
      | 0 => .error .invalid
      | depth + 1 =>
        match skipSpace s with
        | 0x5D :: s => .ok (.arr [], s)
        | s => items fuel depth [] s
    | 0x7B :: s =>
      match depth with
      | 0 => .error .invalid
      | depth + 1 =>
        match skipSpace s with
        | 0x7D :: s => .ok (.obj [], s)
        | s => members fuel depth [] s
    | b :: s =>
      if b == 0x6E then (expect (Bytes.ofString "ull") s).map fun s => (.null, s)
      else if b == 0x74 then (expect (Bytes.ofString "rue") s).map fun s => (.bool true, s)
      else if b == 0x66 then (expect (Bytes.ofString "alse") s).map fun s => (.bool false, s)
      else if b == 0x2D || Bytes.isDigit b then
        (number (b :: s)).map fun (text, s) => (.num text, s)
      else .error .invalid

/-- The elements of an array from the next one on. `acc` holds those before, reversed. -/
def items (fuel depth : Nat) (acc : List Json) (s : Bytes) : Reading Json :=
  match fuel with
  | 0 => .error .incomplete
  | fuel + 1 =>
    match value fuel depth s with
    | .error e => .error e
    | .ok (item, s) =>
      match skipSpace s with
      | [] => .error .incomplete
      | b :: s =>
        if b == 0x2C then items fuel depth (item :: acc) s
        else if b == 0x5D then .ok (.arr (item :: acc).reverse, s)
        else .error .invalid

/-- The members of an object from the next one on. `acc` holds those before, reversed. -/
def members (fuel depth : Nat) (acc : List (Bytes × Json)) (s : Bytes) : Reading Json :=
  match fuel with
  | 0 => .error .incomplete
  | fuel + 1 =>
    match skipSpace s with
    | [] => .error .incomplete
    | q :: s =>
      if q != 0x22 then .error .invalid
      else
        match stringTail none [] s with
        | .error e => .error e
        | .ok (name, s) =>
          match skipSpace s with
          | [] => .error .incomplete
          | colon :: s =>
            if colon != 0x3A then .error .invalid
            else
              match value fuel depth s with
              | .error e => .error e
              | .ok (item, s) =>
                match skipSpace s with
                | [] => .error .incomplete
                | b :: s =>
                  if b == 0x2C then members fuel depth ((name, item) :: acc) s
                  else if b == 0x7D then .ok (.obj ((name, item) :: acc).reverse, s)
                  else .error .invalid

end

/-- The value at the front of a text, and the text after it. -/
def read (s : Bytes) : Reading Json := value (2 * s.length + 2) maxDepth s

end ClassOutline.Json
