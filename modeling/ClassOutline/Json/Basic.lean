import ClassOutline.Text.Rune

/-!
# JSON values and their text

A JSON value, and the text in which the library writes it: two spaces per level, one member or
element per line, and a newline at the end of a document. Inside strings the characters that could
end a script block in a web page (`<`, `>`, `&` and the two line separators of Unicode) are written
as escapes, and each byte outside every valid sequence as the replacement character.
-/

namespace ClassOutline

/-- A JSON value. A number is kept as its text, and an object as its members in order. -/
inductive Json where
  | null
  | bool (b : Bool)
  | num (text : Bytes)
  | str (text : Bytes)
  | arr (items : List Json)
  | obj (members : List (Bytes × Json))
deriving Repr, BEq

namespace Json

/-- A JSON string from a literal. -/
def lit (s : String) : Json := .str (Bytes.ofString s)

/-- A JSON integer. -/
def int (n : Int) : Json := .num (Bytes.ofInt n)

/-- An object whose member names are literals. -/
def record (fields : List (String × Json)) : Json :=
  .obj (fields.map fun f => (Bytes.ofString f.1, f.2))

/-- A string, or null in place of an absent one. -/
def strOrNull : Option Bytes → Json
  | some s => .str s
  | none => .null

/-- A hexadecimal digit in lower case. -/
def hexDigit (n : Nat) : UInt8 := if n < 10 then (48 + n).toUInt8 else (87 + n).toUInt8

/-- An escape of four hexadecimal digits. -/
def unicodeEscape (n : Nat) : Bytes :=
  [0x5C, 0x75, hexDigit (n / 4096 % 16), hexDigit (n / 256 % 16), hexDigit (n / 16 % 16),
    hexDigit (n % 16)]

/-- A character inside a string. For a byte outside every valid sequence the replacement character
itself is written, as the program prints it. Other builds of the library print the six characters of
its escape there, which are read as the same character. -/
def escape (r : Rune) : Bytes :=
  if r.isInvalid then Bytes.ofCodePoint Rune.replacement
  else if r.code == 0x22 then [0x5C, 0x22]
  else if r.code == 0x5C then [0x5C, 0x5C]
  else if r.code == 8 then [0x5C, 0x62]
  else if r.code == 12 then [0x5C, 0x66]
  else if r.code == 10 then [0x5C, 0x6E]
  else if r.code == 13 then [0x5C, 0x72]
  else if r.code == 9 then [0x5C, 0x74]
  else if r.code < 0x20 || r.code == 0x3C || r.code == 0x3E || r.code == 0x26 ||
      r.code == 0x2028 || r.code == 0x2029 then unicodeEscape r.code
  else r.bytes

/-- A string in quotes. -/
def quote (s : Bytes) : Bytes := 0x22 :: (s.runes.flatMap escape ++ [0x22])

/-- A newline and the indentation of a level. -/
def newline (level : Nat) : Bytes := 10 :: List.replicate (2 * level) 0x20

mutual

/-- The text of a value that stands at a level. -/
def render (level : Nat) : Json → Bytes
  | .null => Bytes.ofString "null"
  | .bool true => Bytes.ofString "true"
  | .bool false => Bytes.ofString "false"
  | .num text => text
  | .str text => quote text
  | .arr [] => [0x5B, 0x5D]
  | .arr (item :: items) =>
    0x5B :: (newline (level + 1) ++ render (level + 1) item ++
      (renderItems (level + 1) items ++ (newline level ++ [0x5D])))
  | .obj [] => [0x7B, 0x7D]
  | .obj ((name, value) :: members) =>
    0x7B :: (newline (level + 1) ++ quote name ++ [0x3A, 0x20] ++ render (level + 1) value ++
      (renderMembers (level + 1) members ++ (newline level ++ [0x7D])))

/-- The further elements of an array, each after a comma on a line of its own. -/
def renderItems (level : Nat) : List Json → Bytes
  | [] => []
  | item :: items => 0x2C :: (newline level ++ render level item ++ renderItems level items)

/-- The further members of an object, each after a comma on a line of its own. -/
def renderMembers (level : Nat) : List (Bytes × Json) → Bytes
  | [] => []
  | (name, value) :: members =>
    0x2C :: (newline level ++ quote name ++ [0x3A, 0x20] ++ render level value ++
      renderMembers level members)

end

/-- The text of a document. -/
def document (j : Json) : Bytes := render 0 j ++ [10]

/-- The value of a member, the last one where the name stands more than once. -/
def get? (name : String) : Json → Option Json
  | .obj members => (members.reverse.find? fun m => m.1 == Bytes.ofString name).map Prod.snd
  | _ => none

end Json

end ClassOutline
