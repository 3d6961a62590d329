import ClassOutline.Block

/-!
# Parts that declarations share

The languages write some parts of a declaration in the same way: a visibility keyword, the clause
that names the parent class, the head of a method, and the end of a field.
-/

namespace ClassOutline.Read

/-- A visibility keyword at the front of a text. -/
def visibility (s : Bytes) : Option (Bytes × Bytes) :=
  ["public", "private", "protected"].findSome? fun k =>
    (Read.literal k s).map fun s => (Bytes.ofString k, s)

/-- The word after `extends` in a class header. -/
def parent : Form Bytes := fun prev s => do
  guard (Read.wordStart prev)
  let s ← Read.literal "extends" s
  let s ← Read.spaces1 s
  Read.word s

/-- A word and, after optional space, a parenthesised text: the head of a method or function. -/
def signature (s : Bytes) : Option ((Bytes × Bytes) × Bytes) := do
  let (name, s) ← word s
  let (params, s) ← parenthesized (spaces s)
  return ((name, params), s)

/-- The end of a member: an optional `=` with something after it, and the first semicolon. -/
def memberEnd (s : Bytes) : Option Bytes :=
  match byte 0x3D s with
  | none => byte 0x3B s
  | some s =>
    match s with
    | [] => none
    | b :: s => if b == 0x3B then none else (Bytes.cut? 0x3B s).map Prod.snd

end ClassOutline.Read
