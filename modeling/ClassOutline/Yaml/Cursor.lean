import ClassOutline.Yaml.Window

/-!
# A place in a YAML text

YAML is read character by character, and what a character means depends on its line and column. A
cursor is the rest of the text together with the place where it begins.

The text comes in windows, and `need` makes some characters ready. When a new window has to be read
for them, the characters not yet used move to its front; whether the front is then a byte order mark
decides how the lines that begin in this window are read (`Cursor.marked`).
-/

namespace ClassOutline.Yaml

/-! ## Character classes -/

/-- A line break. -/
def isBreak (c : Char) : Bool :=
  c == '\n' || c == '\r' || c == '\u0085' || c == '\u2028' || c == '\u2029'

/-- A blank: a space or a tab. -/
def isBlank (c : Char) : Bool := c == ' ' || c == '\t'

/-- A blank or a line break. -/
def isGap (c : Char) : Bool := isBlank c || isBreak c

/-- A character of an anchor name or a directive name. -/
def isNameChar (c : Char) : Bool := c.isAlphanum || c == '_' || c == '-'

/-- Whether a word ends before this character: a blank, a line break or the end of the text. -/
def endsWord (c : Option Char) : Bool := c.all isGap

/-- Whether a line ends before this character. -/
def endsLine (c : Option Char) : Bool := c.all isBreak

/-! ## Cursors -/

/-- The rest of a text and its place. -/
structure Cursor where
  rest : List Char
  /-- How many characters stand before. -/
  index : Nat := 0
  line : Nat := 0
  column : Nat := 0
  /-- How many characters are ready; behind the last one, the end of the text counts as some. -/
  ready : Nat := 0
  /-- The sizes of the windows not read yet. -/
  windows : List Nat := []
  /-- Whether the text ends behind them, and no spoilt window follows. -/
  sound : Bool := true
  /-- Whether the characters that were ready when the last window was read begin with a byte order
  mark. -/
  marked : Bool := false
  /-- How many characters the whole text has; no loop over the rest takes more steps. -/
  size : Nat := 0
deriving DecidableEq, Repr

namespace Cursor

/-- The cursor at the start of a text. -/
def start (w : Windows) : Cursor :=
  let rest := w.parts.flatten
  { rest, windows := w.parts.map List.length, sound := w.sound, size := rest.length }

/-- The next character. -/
def head? (c : Cursor) : Option Char := c.rest.head?

/-- The character `n` places on. -/
def at? (c : Cursor) (n : Nat) : Option Char := c.rest[n]?

/-- Whether the next character is a given one. -/
def isAt (c : Cursor) (x : Char) : Bool := c.head? == some x

/-! ## Windows -/

/-- How many characters are ready, and which windows are left, when windows are read until `n` are
ready. Behind the last window the end of the text counts as one more character. -/
def fill (sound : Bool) (n : Nat) : (ready : Nat) → List Nat → Option (Nat × List Nat)
  | ready, [] => if sound then some (ready + 1, []) else none
  | ready, w :: ws =>
    if n ≤ ready + w then some (ready + w, ws) else fill sound n (ready + w) ws

/-- The cursor with `n` characters ready, or with all there are; none where a spoilt window stands
in the way. -/
def need (c : Cursor) (n : Nat) : Option Cursor :=
  if n ≤ c.ready then some c
  else do
    let (ready, windows) ← fill c.sound n c.ready c.windows
    return { c with ready, windows, marked := c.isAt '\ufeff' }

/-! ## Steps -/

/-- The cursor after `n` characters of the same line. -/
def advance (c : Cursor) (n : Nat) : Cursor :=
  { c with
    rest := c.rest.drop n
    index := c.index + n
    column := c.column + n
    ready := c.ready - n }

/-- The line break at the front, as it counts in a scalar, and the cursor after it. The separators
of Unicode stand for themselves, every other break for a newline. -/
def lineBreak (c : Cursor) : List Char × Cursor :=
  let next (n : Nat) (rest : List Char) : Cursor :=
    { c with rest, index := c.index + n, line := c.line + 1, column := 0, ready := c.ready - n }
  match c.rest with
  | '\r' :: '\n' :: rest => (['\n'], next 2 rest)
  | x :: rest =>
    if x == '\u2028' || x == '\u2029' then ([x], next 1 rest)
    else if isBreak x then (['\n'], next 1 rest)
    else ([], c)
  | [] => ([], c)

/-- The cursor after the line break at the front. -/
def skipLine (c : Cursor) : Cursor := c.lineBreak.2

/-- The characters of a class at the front, none of which is a line break, behind those read
already, and the cursor after them. -/
def takeWhileFrom (p : Char → Bool) :
    (fuel : Nat) → (done : List Char) → Cursor → Option (List Char × Cursor)
  | 0, done, c => some (done.reverse, c)
  | fuel + 1, done, c => do
    let c ← c.need 1
    match c.head? with
    | some x =>
      if p x then takeWhileFrom p fuel (x :: done) (c.advance 1) else return (done.reverse, c)
    | none => return (done.reverse, c)

/-- The characters of a class at the front, none of which is a line break, and the cursor after
them. -/
def takeWhile (c : Cursor) (p : Char → Bool) : Option (List Char × Cursor) :=
  takeWhileFrom p (c.size + 1) [] c

/-- The cursor after the characters of a class at the front. -/
def skipWhile (c : Cursor) (p : Char → Bool) : Option Cursor := (c.takeWhile p).map Prod.snd

/-- The cursor at the end of the line. -/
def toLineEnd (c : Cursor) : Option Cursor := c.skipWhile fun x => !isBreak x

/-- The cursor after the line break at the front, if there is one. -/
def pastLineEnd (c : Cursor) : Option Cursor :=
  if c.head?.any isBreak then (c.need 2).map skipLine else some c

/-- Whether a document marker of three equal characters stands at the start of this line. -/
def atMarker (c : Cursor) (x : Char) : Bool :=
  c.column == 0 && c.rest.take 3 == [x, x, x] && endsWord (c.at? 3)

/-- Whether a line begins here that starts or ends a document. -/
def atDocumentMarker (c : Cursor) : Bool := c.atMarker '-' || c.atMarker '.'

end Cursor

/-! ## Comments -/

namespace Cursor

/-- How far behind a token or a comment the next comment is looked for. -/
def commentReach : Nat := 512

/-- A line break of more than one byte. -/
def isWideBreak (x : Char) : Bool := isBreak x && x != '\n' && x != '\r'

/-- The cursor at a later place, with only blanks and line breaks on the way. -/
def overGap (index : Nat) : (fuel : Nat) → Cursor → Option Cursor
  | 0, c => some c
  | fuel + 1, c =>
    if index ≤ c.index then some c
    else do
      let c ← c.need 1
      if c.head?.any isBreak then
        let c ← c.need 2
        overGap index fuel c.skipLine
      else overGap index fuel (c.advance 1)

/-- The cursor at the line end of the last of the comments that follow, where `gap` characters at
the front are known to be blanks and line breaks. A comment belongs to the one before it if only
blanks and line breaks stand between them, and not too many; a line break of more than one byte
separates them. -/
def commentsFrom : (fuel : Nat) → (gap : Nat) → Cursor → Option Cursor
  | 0, _, c => some c
  | fuel + 1, gap, c =>
    if commentReach ≤ gap then some c
    else do
      let c ← c.need (gap + 1)
      match c.at? gap with
      | none => return c
      | some x =>
        if x == '#' then
          let c ← overGap (c.index + gap) commentReach c
          let c ← c.toLineEnd
          if c.head?.any isWideBreak then c.need 2 else commentsFrom fuel 1 c
        else if isWideBreak x then
          if gap + 1 < commentReach then c.need (gap + 2) else return c
        else if isGap x then commentsFrom fuel (gap + 1) c
        else return c

/-- The cursor at the line end of the comment at the front and of those that belong to it. -/
def overComments (c : Cursor) : Option Cursor :=
  commentsFrom (2 * c.size + commentReach + 2) 0 c

/-- The cursor at the line end of a comment behind a token, where `gap` characters at the front are
known to be blanks; the same cursor where there is none. -/
def lineCommentFrom : (fuel : Nat) → (gap : Nat) → Cursor → Option Cursor
  | 0, _, c => some c
  | fuel + 1, gap, c => do
    let c ← c.need (gap + 1)
    match c.at? gap with
    | none => return c
    | some x =>
      if isBlank x then lineCommentFrom fuel (gap + 1) c
      else if x == '#' then c.toLineEnd
      else return c

/-- The cursor after a comment on the line of a token. -/
def overLineComment (c : Cursor) : Option Cursor := lineCommentFrom commentReach 0 c

end Cursor

/-- The UTF-8 text of some characters. -/
def bytesOf (cs : List Char) : Bytes := cs.flatMap fun c => Bytes.ofCodePoint c.toNat

end ClassOutline.Yaml
