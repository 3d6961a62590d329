import ClassOutline.Text.Bytes

/-!
# Query text

The fields of a form as one line of text: `name=value` pairs with ampersands between them, spaces
written as plus signs and other bytes as percent escapes. A query of an address has the same form.
-/

namespace ClassOutline.Http.QueryText

/-- A name or value with plus signs and percent escapes undone. -/
def unescape : Bytes → Option Bytes
  | [] => some []
  | 0x25 :: a :: b :: s =>
    match Bytes.hexValue? a, Bytes.hexValue? b with
    | some x, some y => (unescape s).map ((16 * x + y).toUInt8 :: ·)
    | _, _ => none
  | b :: s => if b == 0x25 then none else (unescape s).map ((if b == 0x2B then 0x20 else b) :: ·)

/-- The field of one piece between ampersands. A semicolon, once another separator, is refused. -/
def field? (piece : Bytes) : Option (Bytes × Bytes) :=
  if List.elem 0x3B piece then none
  else
    let name := piece.takeWhile (· != 0x3D)
    match unescape name, unescape (piece.drop (name.length + 1)) with
    | some name, some value => some (name, value)
    | _, _ => none

/-- The fields of a text; empty pieces hold none. -/
def fields? (s : Bytes) : Option (List (Bytes × Bytes)) :=
  ((Bytes.split 0x26 s).filter fun piece => !piece.isEmpty).mapM field?

end ClassOutline.Http.QueryText
