import ClassOutline.Text.Occurrence

/-!
# Brace blocks

A class declaration in a language with braces is a header followed by a block in braces. The block
is found by counting braces alone: those inside string literals and comments count like any other.
-/

namespace ClassOutline

namespace Block

/-- An opening brace. -/
def opening : UInt8 := 0x7B

/-- A closing brace. -/
def closing : UInt8 := 0x7D

/-- The number of bytes before the closing brace that brings the depth back to zero, when `depth`
braces are open at the start. -/
def closeFrom (depth : Int) : Bytes → Option Nat
  | [] => none
  | b :: s =>
    if b == opening then (closeFrom (depth + 1) s).map (· + 1)
    else if b == closing then
      if depth == 1 then some 0 else (closeFrom (depth - 1) s).map (· + 1)
    else (closeFrom depth s).map (· + 1)

/-- The offset of the closing brace that balances the braces from offset `start` on. There is none
when the text ends first or when `start` lies outside the text. -/
def matchingBrace? (text : Bytes) (start : Int) : Option Nat :=
  if start < 0 || (text.length : Int) ≤ start then none
  else (closeFrom 0 (text.drop start.toNat)).map (· + start.toNat)

end Block

/-- A class declaration with its braces. -/
structure ClassBlock where
  name : Bytes
  /-- The text from the start of the declaration up to the opening brace. -/
  header : Bytes
  /-- The text from the opening brace to the matching closing brace, both included. -/
  body : Bytes
deriving DecidableEq, Repr

namespace ClassBlock

/-- The block of the declaration at the front of a text: there is none without an opening brace
that is closed again. -/
def read? (name : Bytes) (here : Bytes) : Option ClassBlock :=
  let fromBrace := here.dropWhile (· != Block.opening)
  (Block.closeFrom 0 fromBrace).map fun n =>
    ⟨name, here.takeWhile (· != Block.opening), fromBrace.take (n + 1)⟩

/-- The blocks of all declarations of a given form. The form may or may not read a name. -/
def all (form : Form (Option Bytes)) (code : Bytes) : List ClassBlock :=
  (form.occurrences code).filterMap fun o => read? (o.value.getD []) o.here

/-- A class declaration up to its opening brace: the word `class` and a name, then anything. -/
def declaration : Form (Option Bytes) := fun prev s => do
  guard (Read.wordStart prev)
  let s ← Read.literal "class" s
  let s ← Read.spaces1 s
  let (name, s) ← Read.word s
  let (_, s) ← Bytes.cut? Block.opening s
  return (some name, s)

/-- The word `class` alone. -/
def keyword : Form (Option Bytes) := fun prev s => do
  guard (Read.wordStart prev)
  let s ← Read.literal "class" s
  guard (!s.head?.any Bytes.isWord)
  return (none, s)

/-- The word `class` and, where one follows, a name. -/
def keywordAndName : Form (Option Bytes) := fun prev s => do
  let (_, s) ← keyword prev s
  match (do Read.word (← Read.spaces1 s)) with
  | some (name, s) => return (some name, s)
  | none => return (none, s)

end ClassBlock

end ClassOutline
