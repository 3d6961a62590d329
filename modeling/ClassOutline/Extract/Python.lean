import ClassOutline.Extract.Declaration
import ClassOutline.Model.Basic
import ClassOutline.Text.Blank

/-!
# Outlines of Python source

There are no braces to go by. A class is a header at the start of a line that ends its line, and
its body runs to the next line that starts with a class statement. Methods and attributes are the
indented `def` statements and assignments to `self` in the body; functions are the `def` statements
at the start of a line, wherever they stand.

The first base of a class is its parent and the others are its interfaces.
-/

namespace ClassOutline.Python

/-- A newline. -/
def newline : UInt8 := 10

/-- The text from the end of a line on, when only separating bytes stand before that. All of them
are taken when nothing else follows; otherwise those before the last newline among them. -/
def lineEnd (s : Bytes) : Option Bytes :=
  let run := s.takeWhile Bytes.isSpace
  match s.dropWhile Bytes.isSpace with
  | [] => some []
  | after@(_ :: _) =>
    if run.contains newline then
      some (newline :: (run.reverse.takeWhile (· != newline)).reverse ++ after)
    else none

/-- The header of a class: the word `class` at the start of a line, a name, an optional base list
in parentheses and a colon that ends the line. -/
def classHeader : Form (Bytes × Bytes) := fun prev s => do
  guard (Read.lineStart prev)
  let s ← Read.literal "class" s
  let s ← Read.spaces1 s
  let (name, s) ← Read.word s
  let (bases, s) := (Read.parenthesized (Read.spaces s)).getD ([], Read.spaces s)
  let s ← Read.byte 0x3A s
  let s ← lineEnd s
  return ((name, bases), s)

/-- The beginning of a class statement: the word `class` at the start of a line and a name. -/
def classStart : Form Unit := fun prev s => do
  guard (Read.lineStart prev)
  let s ← Read.literal "class" s
  let s ← Read.spaces1 s
  let (_, s) ← Read.word s
  return ((), s)

/-- The text after the indentation of a line, which is not empty. -/
def indentation (s : Bytes) : Option Bytes :=
  (Read.run1 (fun b => b == 0x20 || b == 9) s).map Prod.snd

/-- The word `def`, a name, a parameter list and a colon. -/
def functionHead (s : Bytes) : Option ((Bytes × Bytes) × Bytes) := do
  let s ← Read.literal "def" s
  let s ← Read.spaces1 s
  let (head, s) ← Read.signature s
  let s ← Read.byte 0x3A (Read.spaces s)
  return (head, s)

/-- A method: an indented function head. -/
def method : Form Method := fun prev s => do
  guard (Read.lineStart prev)
  let s ← indentation s
  let ((name, params), s) ← functionHead s
  return (⟨name, params.collapse, [], defaultVisibility⟩, s)

/-- The value of an assignment: something on the line, or on the next line that has something.
Where only separating bytes follow, one of them that is no newline has to do. -/
def assigned (s : Bytes) : Option Bytes :=
  match Read.spaces s with
  | after@(_ :: _) => some (after.dropWhile (· != newline))
  | [] => if s.any (· != newline) then some (s.reverse.takeWhile (· == newline)) else none

/-- An attribute: an indented assignment to a name of `self`. -/
def selfAttribute : Form Attribute := fun prev s => do
  guard (Read.lineStart prev)
  let s ← indentation s
  let s ← Read.literal "self." s
  let (name, s) ← Read.word s
  let s ← Read.byte 0x3D (Read.spaces s)
  let s ← assigned s
  return (⟨name, [], defaultVisibility⟩, s)

/-- A function: a function head at the start of a line. -/
def function : Form FunctionInfo := fun prev s => do
  guard (Read.lineStart prev)
  let ((name, params), s) ← functionHead s
  return (⟨name, params.collapse, []⟩, s)

/-- The body of a class, given the text after its header: all up to the next class statement. -/
def body (rest : Bytes) : Bytes :=
  match classStart.first? rest with
  | some next => rest.take next.start
  | none => rest

/-- The class of a header. -/
def ofHeader (o : Occurrence (Bytes × Bytes)) : ClassInfo :=
  let bases := o.value.2.trim.listItems
  { name := o.value.1
    attributes := selfAttribute.values (body o.rest)
    methods := method.values (body o.rest)
    parent := bases.head?
    interfaces := bases.tail }

/-- The outline of Python source. -/
def outline (code : Bytes) : Outline :=
  .ofParts ((classHeader.occurrences code).map ofHeader) (function.values code)

end ClassOutline.Python
