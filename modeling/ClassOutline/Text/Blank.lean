import ClassOutline.Text.Rune

/-!
# White space of Unicode

Names, hints and parameter lists are trimmed of every character with the Unicode property
`White_Space`, which is more than the five bytes that separate the words of a declaration
(`Bytes.isSpace`): vertical tab, next line, no-break space and the wide spaces belong to it too.

* `Bytes.trim`: a text without white space at either end.
* `Bytes.collapse`: the same, with each run of separating bytes inside folded to one space.
* `Bytes.listItems`: the entries of a comma-separated list.
-/

namespace ClassOutline

/-- The code points with the property `White_Space`. -/
def Rune.isBlankCode (c : Nat) : Bool :=
  (9 ≤ c && c ≤ 13) || c == 0x20 || c == 0x85 || c == 0xA0 || c == 0x1680 ||
    (0x2000 ≤ c && c ≤ 0x200A) || c == 0x2028 || c == 0x2029 || c == 0x202F || c == 0x205F ||
    c == 0x3000

/-- A white space character. -/
def Rune.isBlank (r : Rune) : Bool := Rune.isBlankCode r.code

namespace Bytes

/-- A text without the white space at its ends. -/
def trim (s : Bytes) : Bytes :=
  ofRunes (((s.runes.dropWhile Rune.isBlank).reverse.dropWhile Rune.isBlank).reverse)

/-- A text without the white space in front of it. -/
def trimLeft (s : Bytes) : Bytes := ofRunes (s.runes.dropWhile Rune.isBlank)

/-- Whether a text is empty or white space only. -/
def isBlank (s : Bytes) : Bool := s.runes.all Rune.isBlank

/-- Each run of separating bytes replaced by one space. -/
def foldSpaces : Bytes → Bytes
  | [] => []
  | b :: s =>
    if isSpace b then
      match s with
      | c :: _ => if isSpace c then foldSpaces s else 0x20 :: foldSpaces s
      | [] => [0x20]
    else b :: foldSpaces s

/-- A text on one line: trimmed, and with each run of separating bytes folded to one space. -/
def collapse (s : Bytes) : Bytes := foldSpaces s.trim

/-- The entries of a comma-separated list, trimmed, without the empty ones. -/
def listItems (s : Bytes) : List Bytes :=
  ((split 0x2C s).map trim).filter fun item => !item.isEmpty

end Bytes

end ClassOutline
