import ClassOutline.Text.Bytes

/-!
# Quoted-printable text

A transfer encoding for text that is mostly ASCII: a byte may be written as an equals sign and two
hexadecimal digits, an equals sign at the end of a line joins it to the next, and white space at the
end of a line is dropped.
-/

namespace ClassOutline.Http.QuotedPrintable

/-- White space that may trail on a line. -/
def isTrailing (b : UInt8) : Bool := b == 10 || b == 13 || b == 32 || b == 9

/-- The longest line, without its newline, that is read. -/
def maxLine : Nat := 4095

/-- A byte that may stand as it is. -/
def isPlain (b : UInt8) : Bool := b == 9 || b == 10 || b == 13 || (0x20 ≤ b && b != 0x7F)

/-- The bytes that a line stands for. An equals sign before anything but two hexadecimal digits
stands for itself, unless the line ends there. -/
def bytes? : Bytes → Option Bytes
  | [] => some []
  | 0x3D :: a :: b :: s =>
    match Bytes.hexValue? a, Bytes.hexValue? b with
    | some x, some y => (bytes? s).map ((16 * x + y).toUInt8 :: ·)
    | _, _ => if a == 13 || a == 10 then none else (bytes? (a :: b :: s)).map (0x3D :: ·)
  | b :: s =>
    if b == 0x3D then
      match s with
      | a :: _ => if a == 13 || a == 10 then none else (bytes? s).map (b :: ·)
      | [] => none
    else if isPlain b then (bytes? s).map (b :: ·)
    else none

/-- The bytes of one line. `last` says that the text ends here instead of with a newline, and `whole`
that this is its true end, where an equals sign may stand. -/
def line? (whole last : Bool) (line : Bytes) : Option Bytes :=
  let full := if last then line else line ++ [10]
  let kept := Bytes.dropWhileEnd isTrailing full
  if maxLine < line.length then none
  else if kept.getLast? == some 0x3D then
    let front := kept.dropLast
    let dropped := full.drop kept.length
    if dropped.head? == some 10 || [13, 10].isPrefixOf dropped ||
        (dropped.isEmpty && !front.isEmpty && last && whole) then bytes? front
    else none
  else if last then bytes? kept
  else bytes? (kept ++ if line.getLast? == some 13 then [13, 10] else [10])

/-- The bytes of lines, the last of which ends the text. -/
def lines? (whole : Bool) : List Bytes → Option Bytes
  | [] => some []
  | [line] => line? whole true line
  | line :: lines => do return (← line? whole false line) ++ (← lines? whole lines)

/-- The bytes that a text stands for. `whole` says that nothing was cut off at its end. -/
def decode? (whole : Bool) (s : Bytes) : Option Bytes := lines? whole (Bytes.split 10 s)

end ClassOutline.Http.QuotedPrintable
