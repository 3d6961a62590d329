import ClassOutline.Yaml.Scalar
import ClassOutline.Yaml.Tag

/-!
# Tokens of a YAML text

A YAML text is cut into tokens without knowing the grammar: indentation opens and closes block
collections, and a word becomes the key of a mapping when a colon follows on the same line. The key
token belongs before the word, so the scanner remembers where a key could begin (`PossibleKey`) and
inserts the token there when the colon comes.

A text that cannot be cut further ends with the token `fault`. It names the tokens
that were held back then because they could still become keys.
-/

namespace ClassOutline.Yaml

/-- What a token is. -/
inductive TokenKind where
  | directive (said : Directive)
  | documentStart
  | documentEnd
  | blockSequenceStart
  | blockMappingStart
  | blockEnd
  | flowSequenceStart
  | flowSequenceEnd
  | flowMappingStart
  | flowMappingEnd
  | blockEntry
  | flowEntry
  | key
  | value
  | alias (name : Bytes)
  | anchor (name : Bytes)
  | tag (handle suffix : Bytes)
  | scalar (text : Bytes) (isPlain : Bool)
  | streamEnd
  | fault (awaited : List Nat)
deriving DecidableEq, Repr

/-- A token and the line on which it stands. -/
structure Token where
  kind : TokenKind
  line : Nat
deriving DecidableEq, Repr

/-- A place that becomes a key of a mapping if a colon follows. -/
structure PossibleKey where
  /-- Whether nothing but a key may stand there. -/
  required : Bool
  /-- The number of the token at that place. -/
  number : Nat
  index : Nat
  line : Nat
  column : Nat
  /-- Whether the token at that place is held back until it is known to be a key or not. -/
  awaited : Bool := true

/-- What the scanner knows inside an open bracket, or outside all of them. -/
structure Level where
  /-- The number of the token at the last place that could be a key, and of the bracket before
  that. -/
  number : Nat := 0
  key : Option PossibleKey := none

/-- The state of the scanner between two tokens. -/
structure Scanner where
  cursor : Cursor
  /-- The tokens so far, last first. -/
  tokens : List Token := []
  /-- How many there are. -/
  count : Nat := 0
  /-- The indentation of the innermost block collection; -1 outside all of them. -/
  indent : Int := -1
  /-- The indentations of the collections around it. -/
  outer : List Int := []
  /-- Whether a key may begin at this place. -/
  keyAllowed : Bool := true
  /-- The open brackets, innermost first, and what is outside all of them. -/
  levels : List Level := [{}]

namespace Scanner

/-- How many collections can be open inside one another, block collections and brackets each. -/
def maxDepth : Nat := 10000

/-- Whether brackets are open. -/
def inFlow (s : Scanner) : Bool := !s.levels.tail.isEmpty

/-- The scanner with one more token, on a given line. -/
def emit (s : Scanner) (kind : TokenKind) (line : Nat) : Scanner :=
  { s with tokens := ⟨kind, line⟩ :: s.tokens, count := s.count + 1 }

/-- The scanner with a token inserted before the token of a given number. -/
def insert (s : Scanner) (number : Nat) (kind : TokenKind) (line : Nat) : Scanner :=
  { s with tokens := s.tokens.insertIdx (s.count - number) ⟨kind, line⟩, count := s.count + 1 }

/-- The current possible key. -/
def key? (s : Scanner) : Option PossibleKey := s.levels.head?.bind Level.key

/-- The scanner with the current level changed. -/
def onLevel (s : Scanner) (f : Level → Level) : Scanner := { s with levels := s.levels.modify 0 f }

/-- The scanner with another possible key. -/
def setKey (s : Scanner) (k : PossibleKey) : Scanner := s.onLevel fun _ => ⟨k.number, some k⟩

/-- The scanner without a possible key. -/
def clearKey (s : Scanner) : Scanner := s.onLevel fun l => { l with key := none }

/-- The scanner without its possible key; an error where a key had to be. -/
def dropKey (s : Scanner) : Option Scanner :=
  if s.key?.any (·.required) then none else some s.clearKey

/-- The scanner that remembers this place as a possible key, if one may begin here. -/
def saveKey (s : Scanner) : Option Scanner :=
  if !s.keyAllowed then some s
  else do
    let required := !s.inFlow && s.indent == s.cursor.column
    let s ← s.dropKey
    return s.setKey
      { required
        number := s.count
        index := s.cursor.index
        line := s.cursor.line
        column := s.cursor.column }

/-- Whether a possible key can still become one: the colon stands on the same line, and at most
1024 characters on. -/
def isLive (s : Scanner) (k : PossibleKey) : Bool :=
  k.line == s.cursor.line && s.cursor.index ≤ k.index + 1024

/-- The numbers of the tokens that are held back because they can still become keys. -/
def awaited (s : Scanner) : List Nat :=
  s.levels.filterMap fun l => (l.key.filter fun k => k.awaited && s.isLive k).map PossibleKey.number

/-- How many tokens have been handed over: all but the last two, and none that is held back. -/
def handedOver (s : Scanner) : Nat := s.awaited.foldl min (s.count - 2)

/-- The scanner with a block collection opened at a column, if that is further in. Its token is
inserted before a given token, or else added. -/
def openBlock (s : Scanner) (column : Int) (number : Option Nat) (kind : TokenKind) (line : Nat) :
    Option Scanner :=
  if s.inFlow || column ≤ s.indent then some s
  else do
    let s := { s with outer := s.indent :: s.outer, indent := column }
    guard (s.outer.length ≤ maxDepth)
    match number with
    | some n => return s.insert n kind line
    | none => return s.emit kind line

/-- The block collections that end at a column, for indentations listed innermost first. -/
def closedBy (column : Int) : List Int → Nat
  | [] => 0
  | i :: outer => if column < i then closedBy column outer + 1 else 0

/-- The scanner with the block collections closed that lie further in than a column. -/
def closeBlocks (s : Scanner) (column : Int) : Scanner :=
  if s.inFlow then s
  else
    let levels := s.indent :: s.outer
    let n := closedBy column levels
    let left := levels.drop n
    let ends := List.replicate n (Token.mk .blockEnd s.cursor.line)
    { s with
      tokens := ends ++ s.tokens
      count := s.count + n
      indent := left.head?.getD (-1)
      outer := left.tail }

/-! ## Between tokens -/

/-- The cursor and whether a key may begin there, at the next token. Tabs separate tokens only
where no indentation can be meant. In a window that begins with a byte order mark the first
character of each line is skipped, whatever it is. -/
def toNextToken (inFlow : Bool) :
    (fuel : Nat) → (keyAllowed : Bool) → Cursor → Option (Bool × Cursor)
  | 0, keyAllowed, c => some (keyAllowed, c)
  | fuel + 1, keyAllowed, c => do
    let c ← c.need 1
    let c := if c.column == 0 && c.marked then c.advance 1 else c
    let c ← c.skipWhile fun x => x == ' ' || ((inFlow || !keyAllowed) && x == '\t')
    let c ← if c.isAt '#' then c.overComments else pure c
    if c.head?.any isBreak then
      let c ← c.need 2
      toNextToken inFlow fuel (keyAllowed || !inFlow) c.skipLine
    else return (keyAllowed, c)

/-! ## One token -/

/-- The scanner outside all block collections, where no key can begin. -/
def leaveBlocks (s : Scanner) : Option Scanner := do
  let s ← (s.closeBlocks (-1)).dropKey
  return { s with keyAllowed := false }

/-- An opening bracket. -/
def openFlow (s : Scanner) (kind : TokenKind) : Option Scanner := do
  let s ← s.saveKey
  guard (s.levels.length ≤ maxDepth)
  let levels := { number := s.count } :: s.levels
  let s := s.emit kind s.cursor.line
  return { s with levels, keyAllowed := true, cursor := s.cursor.advance 1 }

/-- The levels after the innermost bracket is closed. If no place in it could be a key, the bracket
itself is not held back any more, though it can still become one. -/
def closeLevel : List Level → List Level
  | inner :: outer :: rest =>
    let release (k : PossibleKey) : PossibleKey :=
      if k.number == inner.number then { k with awaited := false } else k
    { outer with key := outer.key.map release } :: rest
  | levels => levels

/-- A closing bracket. -/
def closeFlow (s : Scanner) (kind : TokenKind) : Option Scanner := do
  let s ← s.dropKey
  let s := s.emit kind s.cursor.line
  let levels := closeLevel s.levels
  return { s with levels, keyAllowed := false, cursor := s.cursor.advance 1 }

/-- A comma between entries in brackets. -/
def flowEntry (s : Scanner) : Option Scanner := do
  let s ← s.dropKey
  let s := s.emit .flowEntry s.cursor.line
  return { s with keyAllowed := true, cursor := s.cursor.advance 1 }

/-- A dash before an entry of a block sequence. -/
def blockEntry (s : Scanner) : Option Scanner := do
  guard (s.inFlow || s.keyAllowed)
  let s ← s.openBlock s.cursor.column none .blockSequenceStart s.cursor.line
  let s ← s.dropKey
  let s := s.emit .blockEntry s.cursor.line
  return { s with keyAllowed := true, cursor := s.cursor.advance 1 }

/-- A question mark before a key. -/
def explicitKey (s : Scanner) : Option Scanner := do
  guard (s.inFlow || s.keyAllowed)
  let s ← s.openBlock s.cursor.column none .blockMappingStart s.cursor.line
  let s ← s.dropKey
  let s := s.emit .key s.cursor.line
  return { s with keyAllowed := !s.inFlow, cursor := s.cursor.advance 1 }

/-- A colon before a value. The tokens of a key belong before the key; where that was handed over
already, they come behind it. -/
def value (s : Scanner) : Option Scanner := do
  let s ←
    match s.key?.filter s.isLive with
    | some k => do
      let isHere := k.awaited || s.handedOver ≤ k.number
      let place : Option Nat := if isHere then some k.number else none
      let s :=
        match place with
        | some n => s.insert n .key k.line
        | none => s.emit .key k.line
      let s ← s.openBlock k.column place .blockMappingStart k.line
      pure { s.clearKey with keyAllowed := false }
    | none => do
      guard (!s.key?.any (·.required))
      let s := s.clearKey
      guard (s.inFlow || s.keyAllowed)
      let s ← s.openBlock s.cursor.column none .blockMappingStart s.cursor.line
      pure { s with keyAllowed := !s.inFlow }
  let s := s.emit .value s.cursor.line
  return { s with cursor := s.cursor.advance 1 }

/-- An anchor or an alias. -/
def reference (s : Scanner) (kind : Bytes → TokenKind) : Option Scanner := do
  let s ← s.saveKey
  let (name, c) ← (s.cursor.advance 1).takeWhile isNameChar
  guard (!name.isEmpty && (endsWord c.head? || "?:,]\x7d%@`".toList.any fun x => c.isAt x))
  let s := s.emit (kind (bytesOf name)) s.cursor.line
  return { s with keyAllowed := false, cursor := c }

/-- A tag. -/
def tag (s : Scanner) : Option Scanner := do
  let s ← s.saveKey
  let (handle, suffix, c) ← tagParts s.cursor
  let s := s.emit (.tag handle suffix) s.cursor.line
  return { s with keyAllowed := false, cursor := c }

/-- A literal or folded block. -/
def block (s : Scanner) (literal : Bool) : Option Scanner := do
  let s ← s.dropKey
  let (text, c) ← blockScalar literal s.indent s.cursor
  let s := s.emit (.scalar (bytesOf text) false) s.cursor.line
  return { s with keyAllowed := true, cursor := c }

/-- A scalar in quotes. -/
def quotedScalar (s : Scanner) : Option Scanner := do
  let s ← s.saveKey
  let (text, c) ← quoted s.cursor
  let s := s.emit (.scalar (bytesOf text) false) s.cursor.line
  return { s with keyAllowed := false, cursor := c }

/-- A plain scalar. -/
def plainScalar (s : Scanner) : Option Scanner := do
  let s ← s.saveKey
  let (text, broken, c) ← plain s.inFlow (s.indent + 1).toNat s.cursor
  let s := s.emit (.scalar (bytesOf text) true) s.cursor.line
  return { s with keyAllowed := broken, cursor := c }

/-- Whether a plain scalar may begin with a character, before another one. -/
def startsPlain (inFlow : Bool) (x : Char) (next : Option Char) : Bool :=
  if x == '-' then !next.any isBlank
  else if x == '?' || x == ':' then !inFlow && !endsWord next
  else !(isGap x || ",[]\x7b\x7d#&*!|>\x27\"%@`".toList.contains x)

/-- The scanner after the token that begins with the given character at the cursor. -/
def tokenAt (s : Scanner) (x : Char) : Option Scanner :=
  let next := s.cursor.at? 1
  if x == '[' then s.openFlow .flowSequenceStart
  else if x == '{' then s.openFlow .flowMappingStart
  else if x == ']' then s.closeFlow .flowSequenceEnd
  else if x == '}' then s.closeFlow .flowMappingEnd
  else if x == ',' then s.flowEntry
  else if x == '-' && endsWord next then s.blockEntry
  else if x == '?' && (s.inFlow || endsWord next) then s.explicitKey
  else if x == ':' && (s.inFlow || endsWord next) then s.value
  else if x == '*' then s.reference .alias
  else if x == '&' then s.reference .anchor
  else if x == '!' then s.tag
  else if x == '|' && !s.inFlow then s.block true
  else if x == '>' && !s.inFlow then s.block false
  else if x == '\x27' || x == '"' then s.quotedScalar
  else if startsPlain s.inFlow x next then s.plainScalar
  else none

/-- The end of the text. -/
def finish (s : Scanner) : Option Scanner := do
  let line := if s.cursor.column == 0 then s.cursor.line else s.cursor.line + 1
  let s ← ({ s with cursor := { s.cursor with line, column := 0 } }).leaveBlocks
  return s.emit .streamEnd line

/-- A document marker. -/
def marker (s : Scanner) (kind : TokenKind) : Option Scanner := do
  let s ← s.leaveBlocks
  let s := s.emit kind s.cursor.line
  return { s with cursor := s.cursor.advance 3 }

/-- Whether a comment may follow the last token on its line. A dash has none, and behind a scalar that
took the end of its line a key may begin. -/
def takesComment (s : Scanner) : Bool :=
  match s.tokens.head?.map Token.kind with
  | some .blockEntry => false
  | some (.scalar _ _) => !s.keyAllowed
  | _ => true

/-- The scanner after the next token, and whether that ended the text. -/
def step (s : Scanner) : Option (Scanner × Bool) := do
  let (keyAllowed, cursor) ← toNextToken s.inFlow (s.cursor.size + 1) s.keyAllowed s.cursor
  let s := ({ s with keyAllowed, cursor }).closeBlocks cursor.column
  let cursor ← cursor.need 4
  let s := { s with cursor }
  match cursor.head? with
  | none => return (← s.finish, true)
  | some x =>
    if cursor.column == 0 && x == '%' then
      let s ← s.leaveBlocks
      let (said, c) ← directive cursor
      return ({ s.emit (.directive said) cursor.line with cursor := c }, false)
    else if cursor.atMarker '-' then return (← s.marker .documentStart, false)
    else if cursor.atMarker '.' then return (← s.marker .documentEnd, false)
    else
      let s ← s.tokenAt x
      let c ← if s.takesComment then s.cursor.overLineComment else pure s.cursor
      return ({ s with cursor := c }, false)

/-- All tokens from a state on. -/
def run : (fuel : Nat) → Scanner → List Token
  | 0, s => (⟨.fault [], s.cursor.line⟩ :: s.tokens).reverse
  | fuel + 1, s =>
    match s.step with
    | none => (⟨.fault s.awaited, s.cursor.line⟩ :: s.tokens).reverse
    | some (s, true) => s.tokens.reverse
    | some (s, false) => run fuel s

end Scanner

/-- The tokens of a text. -/
def tokenize (text : Bytes) : List Token :=
  let cursor := Cursor.start (Windows.of text)
  Scanner.run (2 * cursor.size + 2) { cursor }

end ClassOutline.Yaml
