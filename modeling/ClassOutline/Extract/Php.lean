import ClassOutline.Extract.Declaration
import ClassOutline.Model.Basic
import ClassOutline.Text.Blank

/-!
# Outlines of PHP source

Classes are found by their braces, like those of Java. Of the inheritance clauses only `extends` is
read. Functions are looked for at the start of every line of the whole text, so an unindented
method without a keyword before it is reported as a function too.
-/

namespace ClassOutline.Php

/-- The text after an optional `static` and the space behind it. -/
def skipStatic (s : Bytes) : Bytes := ((Read.literal "static" s).bind Read.spaces1).getD s

/-- A property: visibility, an optional `static`, a dollar sign and a name, an optional initial
value and a semicolon. The dollar sign is part of the name. -/
def property : Form Attribute := fun prev s => do
  guard (Read.wordStart prev)
  let (vis, s) ← Read.visibility s
  let s ← Read.spaces1 s
  let s ← Read.byte 0x24 (skipStatic s)
  let (name, s) ← Read.word s
  let s ← Read.memberEnd (Read.spaces s)
  return (⟨0x24 :: name, [], vis⟩, s)

/-- The word `function`, a name and a parameter list. -/
def functionHead (s : Bytes) : Option ((Bytes × Bytes) × Bytes) := do
  let s ← Read.literal "function" s
  let s ← Read.spaces1 s
  Read.signature s

/-- A method: optional visibility, an optional `static` and a function head. -/
def method : Form Method := fun prev s => do
  guard (Read.wordBoundary prev s)
  let (vis, s) := (Read.visibility s).getD (defaultVisibility, s)
  let ((name, params), s) ← functionHead (skipStatic (Read.spaces s))
  return (⟨name, params.collapse, [], vis⟩, s)

/-- A function: a function head at the start of a line, after optional space. -/
def function : Form FunctionInfo := fun prev s => do
  guard (Read.lineStart prev)
  let ((name, params), s) ← functionHead (Read.spaces s)
  return (⟨name, params.collapse, []⟩, s)

/-- The class of a block. -/
def ofBlock (b : ClassBlock) : ClassInfo where
  name := b.name
  attributes := property.values b.body
  methods := method.values b.body
  parent := (Read.parent.first? b.header).map Occurrence.value
  interfaces := []

/-- The outline of PHP source. -/
def outline (code : Bytes) : Outline :=
  .ofParts ((ClassBlock.all ClassBlock.declaration code).map ofBlock) (function.values code)

end ClassOutline.Php
