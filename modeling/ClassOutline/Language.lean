import ClassOutline.Extract.Python
import ClassOutline.Text.LowerCase

/-!
# Which language a source text is in

The ending of the file name decides where it can. Otherwise the text is looked at: each language has
a few telling shapes, and of the languages whose shapes occur the first in a fixed order is taken.
Most PHP files end statements with a semicolon and so look like Java first.
-/

namespace ClassOutline

/-- The name of a language, in lower case; the empty name stands for an unknown one. -/
abbrev Language := Bytes

namespace Language

/-- Java. -/
def java : Language := Bytes.ofString "java"

/-- PHP. -/
def php : Language := Bytes.ofString "php"

/-- Python. -/
def python : Language := Bytes.ofString "python"

/-- No language known. -/
def unknown : Language := []

/-- The file name endings that tell a language, in the order in which they are tried. -/
def endings : List (Bytes × Language) :=
  [(Bytes.ofString ".java", java), (Bytes.ofString ".php", php), (Bytes.ofString ".py", python)]

/-- The language that a file name tells, in any letter case. -/
def ofFilename (filename : Bytes) : Language :=
  let name := filename.lower
  ((endings.find? fun e => e.1.isSuffixOf name).map Prod.snd).getD unknown

/-- A language hint as it is looked up: trimmed and in lower case. -/
def normalizeHint (hint : Bytes) : Bytes := hint.trim.lower

/-! ## Telling shapes -/

/-- Whether `extends` or `implements` stands at the front of a text. -/
def startsHeritage (s : Bytes) : Bool :=
  (Read.literal "extends" s).isSome || (Read.literal "implements" s).isSome

/-- Whether `extends` or `implements` stands anywhere in a text. -/
def holdsHeritage : Bytes → Bool
  | [] => false
  | b :: s => startsHeritage (b :: s) || holdsHeritage s

/-- A class declaration with an inheritance clause. The clause may follow the name without space:
then the name is what stands before it, and is not empty. -/
def heritage : Form Unit := fun prev s => do
  guard (Read.wordStart prev)
  let s ← Read.literal "class" s
  let s ← Read.spaces1 s
  let (name, s) ← Read.word s
  guard (holdsHeritage name.tail || startsHeritage (Read.spaces s))
  return ((), s)

/-- A semicolon at the end of a line. -/
def statementEnd : Form Unit := fun _ s => do
  let s ← Read.byte 0x3B s
  let s := s.dropWhile fun b => Bytes.isSpace b && b != Python.newline
  guard (s.head?.all (· == Python.newline))
  return ((), s)

/-- The opening tag of PHP. -/
def openTag : Form Unit := fun _ s => do
  let s ← Read.literal "<?php" s
  return ((), s)

/-- A function head as PHP writes it. -/
def functionCall : Form Unit := fun prev s => do
  guard (Read.wordStart prev)
  let s ← Read.literal "function" s
  let s ← Read.spaces1 s
  let (_, s) ← Read.word s
  let s ← Read.byte 0x28 (Read.spaces s)
  return ((), s)

/-- A function head as Python writes it, at the start of a line after optional space. -/
def definition : Form Unit := fun prev s => do
  guard (Read.lineStart prev)
  let s ← Read.literal "def" (Read.spaces s)
  let s ← Read.spaces1 s
  let (_, s) ← Read.word s
  let s ← Read.byte 0x28 (Read.spaces s)
  return ((), s)

/-- The languages that have a telling shape in a text, in order of preference. -/
def candidates (code : Bytes) : List Language :=
  (if heritage.occursIn code || statementEnd.occursIn code then [java] else []) ++
    (if openTag.occursIn code || functionCall.occursIn code then [php] else []) ++
    (if Python.classHeader.occursIn code || definition.occursIn code then [python] else [])

/-- The language of a source text with the given file name. -/
def detect (code filename : Bytes) : Language :=
  let named := ofFilename filename
  if named.isEmpty then (candidates code).head?.getD unknown else named

end Language

end ClassOutline
