import ClassOutline.Yaml.Cursor

/-!
# Tags and directives of a YAML text

A tag in front of a node is a handle and a suffix; a directive in front of a document tells the
version or what a handle stands for. Each function here takes a cursor at the start of such a part
and gives what it says and the cursor after it; none means that the text is malformed.

Tags are bytes: a percent escape has to look like UTF-8 by its leading byte only.
-/

namespace ClassOutline.Yaml

/-! ## Tags -/

/-- A character of a tag, apart from the percent sign of an escape. -/
def isTagChar (c : Char) : Bool :=
  isNameChar c || ";/?:@&=+$,.!~*\x27()[]".toList.contains c

/-- The value of a hexadecimal digit. -/
def hexDigit? (c : Option Char) : Option Nat :=
  c.bind fun x => Bytes.hexValue? (if x.toNat < 128 then x.toNat.toUInt8 else 0)

/-- The percent escape of one byte. -/
def escapedByte (c : Cursor) : Option (UInt8 × Cursor) := do
  let c ← c.need 3
  guard (c.isAt '%')
  let high ← hexDigit? (c.at? 1)
  let low ← hexDigit? (c.at? 2)
  return ((16 * high + low).toUInt8, c.advance 3)

/-- The percent escapes of so many continuation bytes, behind those read already, last first. -/
def continuationBytes : (count : Nat) → (done : Bytes) → Cursor → Option (Bytes × Cursor)
  | 0, done, c => some (done, c)
  | count + 1, done, c => do
    let (b, c) ← escapedByte c
    guard (0x80 ≤ b && b < 0xC0)
    continuationBytes count (b :: done) c

/-- The text of a tag at the front with its escapes undone, behind what was read of it already, last
byte first, and the cursor after it. -/
def tagTextFrom : (fuel : Nat) → (done : Bytes) → Cursor → Option (Bytes × Cursor)
  | 0, _, _ => none
  | fuel + 1, done, c => do
    let c ← c.need 1
    match c.head? with
    | none => return (done.reverse, c)
    | some x =>
      if x == '%' then
        let (lead, c) ← escapedByte c
        let length := sequenceLength lead
        guard (length != 0)
        let (done, c) ← continuationBytes (length - 1) (lead :: done) c
        tagTextFrom fuel done c
      else if isTagChar x then tagTextFrom fuel (x.toNat.toUInt8 :: done) (c.advance 1)
      else return (done.reverse, c)

/-- The text of a tag at the front and the cursor after it. -/
def tagText (c : Cursor) : Option (Bytes × Cursor) := tagTextFrom (c.size + 1) [] c

/-- The handle of a tag: an exclamation mark, then perhaps a name and another one. -/
def tagHandle (c : Cursor) : Option (Bytes × Cursor) := do
  let c ← c.need 1
  guard (c.isAt '!')
  let (name, c) ← (c.advance 1).takeWhile isNameChar
  if c.isAt '!' then return (bytesOf ('!' :: name ++ ['!']), c.advance 1)
  return (bytesOf ('!' :: name), c)

/-- Whether a handle is closed by a second exclamation mark. -/
def isClosedHandle (handle : Bytes) : Bool := 1 < handle.length && handle.getLast? == some 0x21

/-- A tag: its handle and suffix. -/
def tagParts (c : Cursor) : Option (Bytes × Bytes × Cursor) := do
  let c ← c.need 2
  let (handle, suffix, c) ←
    if c.at? 1 == some '<' then do
      let (suffix, c) ← tagText (c.advance 2)
      guard (!suffix.isEmpty && c.isAt '>')
      pure ([], suffix, c.advance 1)
    else do
      let (handle, c) ← tagHandle c
      let (suffix, c) ← tagText c
      if isClosedHandle handle then
        guard (!suffix.isEmpty)
        pure (handle, suffix, c)
      else
        let suffix := handle.drop 1 ++ suffix
        if suffix.isEmpty then pure ([], [0x21], c) else pure ([0x21], suffix, c)
  let c ← c.need 1
  guard (endsWord c.head?)
  return (handle, suffix, c)

/-! ## Directives -/

/-- What a directive says. -/
inductive Directive where
  | version (major minor : Nat)
  | handle (name start : Bytes)
deriving DecidableEq, Repr

/-- A number of one or two digits, and the cursor after it. -/
def versionNumber (c : Cursor) : Option (Nat × Cursor) := do
  let (digits, c) ← c.takeWhile Char.isDigit
  guard (!digits.isEmpty && digits.length ≤ 2)
  return (digits.foldl (fun n d => 10 * n + (d.toNat - 48)) 0, c)

/-- A directive, which takes its whole line. -/
def directive (c : Cursor) : Option (Directive × Cursor) := do
  let (name, c) ← (c.advance 1).takeWhile isNameChar
  guard (!name.isEmpty && endsWord c.head?)
  let (said, c) ←
    if name == "YAML".toList then do
      let (major, c) ← versionNumber (← c.skipWhile isBlank)
      guard (c.isAt '.')
      let (minor, c) ← versionNumber (c.advance 1)
      pure (Directive.version major minor, c)
    else if name == "TAG".toList then do
      let (handle, c) ← tagHandle (← c.skipWhile isBlank)
      guard (handle == [0x21] || isClosedHandle handle)
      let c ← c.need 1
      guard (c.head?.any isBlank)
      let (start, c) ← tagText (← c.skipWhile isBlank)
      guard (!start.isEmpty && endsWord c.head?)
      pure (Directive.handle handle start, c)
    else none
  let c ← c.skipWhile isBlank
  let c ← if c.isAt '#' then c.toLineEnd else pure c
  guard (endsLine c.head?)
  return (said, ← c.pastLineEnd)

end ClassOutline.Yaml
