import ClassOutline.Text.Bytes

/-!
# Occurrences of a form in a text

A *form* recognises one shape of declaration at the front of a text. It sees the byte before that
place, because some shapes may begin only at a word boundary or at the start of a line, and answers
with what it read and the text that follows.

`occurrences` finds every place where a form is recognised, from the left and without overlap: a
search goes on after the text that the last occurrence took. It is structural recursion on the
text; the count of bytes still to be skipped stands in for a position.

The second half of the module holds the pieces that forms are made of.
-/

namespace ClassOutline

/-- A shape of text: given the byte before, if any, and the text from here on, what is read at the
front and the text after it. -/
abbrev Form (α : Type) := Option UInt8 → Bytes → Option (α × Bytes)

/-- A place where a form was recognised. -/
structure Occurrence (α : Type) where
  /-- The offset of the first byte. -/
  start : Nat
  /-- The text from the first byte on. -/
  here : Bytes
  /-- What the form read. -/
  value : α
  /-- The text after the last byte. -/
  rest : Bytes

namespace Form

variable {α : Type}

/-- The occurrences of a form in the rest `s` of a text, where `pos` bytes stand before `s`, the
last of them is `prev`, and the first `skip` bytes of `s` belong to an occurrence already found. -/
def occurrencesFrom (form : Form α) :
    (skip pos : Nat) → (prev : Option UInt8) → Bytes → List (Occurrence α)
  | _, _, _, [] => []
  | skip + 1, pos, _, b :: s => occurrencesFrom form skip (pos + 1) (some b) s
  | 0, pos, prev, b :: s =>
    match form prev (b :: s) with
    | some (value, rest) =>
      ⟨pos, b :: s, value, rest⟩ ::
        occurrencesFrom form (s.length - rest.length) (pos + 1) (some b) s
    | none => occurrencesFrom form 0 (pos + 1) (some b) s

/-- Every occurrence of a form in a text, from the left and without overlap. -/
def occurrences (form : Form α) (s : Bytes) : List (Occurrence α) :=
  form.occurrencesFrom 0 0 none s

/-- What a form read at each of its occurrences. -/
def values (form : Form α) (s : Bytes) : List α := (form.occurrences s).map Occurrence.value

/-- The first occurrence of a form in the rest `s` of a text that has `pos` bytes, the last of them
`prev`, before `s`. -/
def firstFrom (form : Form α) (pos : Nat) (prev : Option UInt8) : Bytes → Option (Occurrence α)
  | [] => none
  | b :: s =>
    match form prev (b :: s) with
    | some (value, rest) => some ⟨pos, b :: s, value, rest⟩
    | none => firstFrom form (pos + 1) (some b) s

/-- The first occurrence of a form in a text. -/
def first? (form : Form α) (s : Bytes) : Option (Occurrence α) := form.firstFrom 0 none s

/-- Whether a form occurs in a text. -/
def occursIn (form : Form α) (s : Bytes) : Bool := (form.first? s).isSome

end Form

/-! ## Pieces of forms -/

namespace Read

/-- No word goes on across this place: the byte before is no word byte. -/
def wordStart (prev : Option UInt8) : Bool := !prev.any Bytes.isWord

/-- This place is the start of the text or follows a newline. -/
def lineStart (prev : Option UInt8) : Bool := prev.all (· == 10)

/-- Either a word begins or one ends at this place. -/
def wordBoundary (prev : Option UInt8) (s : Bytes) : Bool :=
  prev.any Bytes.isWord != s.head?.any Bytes.isWord

/-- The text after a fixed beginning. -/
def literal (text : String) (s : Bytes) : Option Bytes := (Bytes.ofString text).isPrefixOf? s

/-- The text after one given byte. -/
def byte (b : UInt8) : Bytes → Option Bytes
  | [] => none
  | c :: s => if c == b then some s else none

/-- The text after all separating bytes at the front. -/
def spaces (s : Bytes) : Bytes := s.dropWhile Bytes.isSpace

/-- The text after all separating bytes at the front, of which there is at least one. -/
def spaces1 : Bytes → Option Bytes
  | [] => none
  | b :: s => if Bytes.isSpace b then some (spaces s) else none

/-- The longest run of bytes of a class at the front, which has at least one, and the text
after it. -/
def run1 (p : UInt8 → Bool) (s : Bytes) : Option (Bytes × Bytes) :=
  match s.takeWhile p with
  | [] => none
  | b :: w => some (b :: w, s.dropWhile p)

/-- The word at the front and the text after it. -/
def word (s : Bytes) : Option (Bytes × Bytes) := run1 Bytes.isWord s

/-- A parenthesised text: what stands up to the first closing parenthesis, and the text after
that. -/
def parenthesized (s : Bytes) : Option (Bytes × Bytes) := do
  let s ← byte 0x28 s
  Bytes.cut? 0x29 s

end Read

end ClassOutline
