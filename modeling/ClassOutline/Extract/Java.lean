import ClassOutline.Extract.Declaration
import ClassOutline.Model.Basic
import ClassOutline.Text.Blank

/-!
# Outlines of Java source

Classes are found by their braces (`ClassBlock.declaration`). Fields and methods are looked for in
the whole block of a class, nested blocks included, by the shape of one declaration: there is no
grammar behind it, and a control statement of the right shape counts as a method.

A visibility keyword, `static` and the return type of a method are all optional, so one text can
often be read in several ways. `method` tries the readings in a fixed order: with the keyword before
without it, then with `static` before without it, then with a type before without it.
-/

namespace ClassOutline.Java

/-- A byte of a type: a word byte, an angle bracket or a square bracket. -/
def isTypeByte (b : UInt8) : Bool :=
  Bytes.isWord b || b == 0x3C || b == 0x3E || b == 0x5B || b == 0x5D

/-- A type at the front of a text. -/
def typeText (s : Bytes) : Option (Bytes × Bytes) := Read.run1 isTypeByte s

/-- What follows `implements` in a class header. -/
def interfacesForm : Form Bytes := fun prev s => do
  guard (Read.wordStart prev)
  let s ← Read.literal "implements" s
  let s ← Read.spaces1 s
  return (s.takeWhile (· != Block.opening), s.dropWhile (· != Block.opening))

/-- A type, a name and the end of a field. -/
def fieldTail (s : Bytes) : Option ((Bytes × Bytes) × Bytes) := do
  let (type, s) ← typeText s
  let s ← Read.spaces1 s
  let (name, s) ← Read.word s
  let s ← Read.memberEnd (Read.spaces s)
  return ((type, name), s)

/-- A field: visibility, an optional `static`, type, name, an optional initial value and a
semicolon. -/
def field : Form Attribute := fun prev s => do
  guard (Read.wordStart prev)
  let (vis, s) ← Read.visibility s
  let s ← Read.spaces1 s
  let afterStatic := do fieldTail (← Read.spaces1 (← Read.literal "static" s))
  let ((type, name), s) ← afterStatic <|> fieldTail s
  return (⟨name, type, vis⟩, s)

/-- Space, a name, a parameter list and an opening brace. -/
def methodTail (s : Bytes) : Option ((Bytes × Bytes) × Bytes) := do
  let s ← Read.spaces1 s
  let (head, s) ← Read.signature s
  let s ← Read.byte Block.opening (Read.spaces s)
  return (head, s)

/-- A return type and the tail of a method. -/
def typedTail (s : Bytes) : Option ((Bytes × Bytes × Bytes) × Bytes) := do
  let (type, s) ← typeText s
  let ((name, params), s) ← methodTail s
  return ((type, name, params), s)

/-- The tail of a method without a return type. -/
def untypedTail (s : Bytes) : Option ((Bytes × Bytes × Bytes) × Bytes) := do
  let ((name, params), s) ← methodTail s
  return (([], name, params), s)

/-- A method from its optional `static` on. After `static` and at least two bytes of space the
return type may be missing; without `static` it may be missing after any space. -/
def methodBody (s : Bytes) : Option ((Bytes × Bytes × Bytes) × Bytes) :=
  let start := Read.spaces s
  let afterStatic := Read.literal "static" start
  (do typedTail (← Read.spaces1 (← afterStatic))) <|>
    (do
      let t ← afterStatic
      guard (t.head?.any Bytes.isSpace)
      untypedTail (t.drop 1)) <|>
    typedTail start <|>
    untypedTail s

/-- A method: optional visibility, optional `static`, optional return type, name, parameter list
and an opening brace. -/
def method : Form Method := fun prev s => do
  guard (Read.wordBoundary prev s)
  let declared := do
    let (vis, s) ← Read.visibility s
    let ((type, name, params), s) ← methodBody s
    return (Method.mk name params.collapse type vis, s)
  let undeclared := do
    let ((type, name, params), s) ← methodBody s
    return (Method.mk name params.collapse type defaultVisibility, s)
  declared <|> undeclared

/-- The class of a block. -/
def ofBlock (b : ClassBlock) : ClassInfo where
  name := b.name
  attributes := field.values b.body
  methods := method.values b.body
  parent := (Read.parent.first? b.header).map Occurrence.value
  interfaces := ((interfacesForm.first? b.header).map fun o => o.value.listItems).getD []

/-- The outline of Java source. There are no functions outside classes. -/
def outline (code : Bytes) : Outline :=
  .ofParts ((ClassBlock.all ClassBlock.declaration code).map ofBlock) []

end ClassOutline.Java
