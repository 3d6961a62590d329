import ClassOutline.Text.Bytes

/-!
# Edit distance

The least number of insertions, deletions and replacements of single bytes that lead from one text
to another. The distances from all beginnings of the first text are kept in a row, which each byte
of the second text moves on.
-/

namespace ClassOutline.Bytes

/-- The rest of a row for a text that is one byte longer. `corner` is the distance before both
bytes, `left` the one before the byte of `s`, and the old row gives those before `c`. -/
def extendRow (c : UInt8) : (corner left : Nat) → (s : Bytes) → (row : List Nat) → List Nat
  | corner, left, b :: s, above :: row =>
    let d := if b == c then corner else min (min above left) corner + 1
    d :: extendRow c above d s row
  | _, _, _, _ => []

/-- The row for a text that is one byte longer. -/
def nextRow (s : Bytes) (row : List Nat) (c : UInt8) : List Nat :=
  match row with
  | corner :: rest => (corner + 1) :: extendRow c corner (corner + 1) s rest
  | [] => []

/-- The edit distance of two texts. -/
def editDistance (s t : Bytes) : Nat :=
  (t.foldl (nextRow s) (List.range (s.length + 1))).getLastD 0

end ClassOutline.Bytes
