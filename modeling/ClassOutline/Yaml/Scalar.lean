import ClassOutline.Yaml.Cursor

/-!
# Scalars of a YAML text

The five ways to write a scalar: plain, in single or double quotes, and as a literal or folded
block. Each function here takes a cursor at the start of a scalar and gives its content and the
cursor after it; none means that the text is malformed.
-/

namespace ClassOutline.Yaml

/-! ## Gaps between the words of a flow scalar -/

/-- White space between two words of a plain or quoted scalar. Characters are listed last first. -/
structure Gap where
  /-- The blanks, while no line has ended. -/
  blanks : List Char := []
  /-- Whether a line has ended. -/
  broken : Bool := false
  /-- The first line break, as it counts. -/
  first : List Char := []
  /-- The further line breaks. -/
  more : List Char := []

/-- What a gap leaves in the content, last character first: blanks stay, a single line break becomes
a space, and of several breaks all but the first stay. -/
def Gap.content (g : Gap) : List Char :=
  if !g.broken then g.blanks
  else if g.first.head? == some '\n' then (if g.more.isEmpty then [' '] else g.more)
  else g.more ++ g.first

/-- The gap at the front and the cursor after it. In a line that ends a plain scalar's
indentation early, that is before column `indent`, a tab is an error. -/
def readGap (indent : Nat) : (fuel : Nat) → Gap → Cursor → Option (Gap × Cursor)
  | 0, g, c => some (g, c)
  | fuel + 1, g, c => do
    let c ← c.need 1
    match c.head? with
    | none => return (g, c)
    | some x =>
      if isBlank x then
        if g.broken && c.column < indent && x == '\t' then none
        else
          let g := if g.broken then g else { g with blanks := x :: g.blanks }
          readGap indent fuel g (c.advance 1)
      else if isBreak x then
        let c ← c.need 2
        let (text, c) := c.lineBreak
        let g : Gap :=
          if g.broken then { g with more := text ++ g.more }
          else { blanks := [], broken := true, first := text, more := g.more }
        readGap indent fuel g c
      else return (g, c)

/-! ## Plain scalars -/

/-- Whether a character ends a plain scalar inside brackets. -/
def endsPlainInFlow (c : Char) : Bool :=
  c == ',' || c == '?' || c == '[' || c == ']' || c == '{' || c == '}'

/-- The word of a plain scalar at the front, behind what was read of it already, last character
first, and the cursor after it. -/
def plainWord (inFlow : Bool) :
    (fuel : Nat) → (done : List Char) → Cursor → Option (List Char × Cursor)
  | 0, done, c => some (done, c)
  | fuel + 1, done, c =>
    match c.head? with
    | none => some (done, c)
    | some x =>
      if isGap x || (x == ':' && endsWord (c.at? 1)) || (inFlow && endsPlainInFlow x) then
        some (done, c)
      else do
        let c ← (c.advance 1).need 2
        plainWord inFlow fuel (x :: done) c

/-- The rest of a plain scalar. `done` is the content so far, last character first, and `gap` the
white space after it. The last answer tells whether a line ended behind the scalar. -/
def plainFrom (inFlow : Bool) (indent : Nat) :
    (fuel : Nat) → (done : List Char) → (gap : Gap) → Cursor → Option (List Char × Bool × Cursor)
  | 0, done, gap, c => some (done.reverse, gap.broken, c)
  | fuel + 1, done, gap, c => do
    let c ← c.need 4
    if c.atDocumentMarker || c.isAt '#' then return (done.reverse, gap.broken, c)
    let (word, c) ← plainWord inFlow (c.size + 1) [] c
    let (done, gap) : List Char × Gap :=
      if word.isEmpty then (done, gap) else (word ++ (gap.content ++ done), {})
    if !c.head?.any isGap then return (done.reverse, gap.broken, c)
    let (gap, c) ← readGap indent (c.size + 1) gap c
    if !inFlow && c.column < indent then return (done.reverse, gap.broken, c)
    plainFrom inFlow indent fuel done gap c

/-- A plain scalar. -/
def plain (inFlow : Bool) (indent : Nat) (c : Cursor) : Option (List Char × Bool × Cursor) :=
  plainFrom inFlow indent (c.size + 1) [] {} c

/-! ## Quoted scalars -/

/-- The character of a one-letter escape. -/
def shortEscape? (c : Char) : Option Char :=
  match c with
  | '0' => some '\x00'
  | 'a' => some '\x07'
  | 'b' => some '\x08'
  | 't' => some '\t'
  | '\t' => some '\t'
  | 'n' => some '\n'
  | 'v' => some '\x0b'
  | 'f' => some '\x0c'
  | 'r' => some '\r'
  | 'e' => some '\x1b'
  | ' ' => some ' '
  | '"' => some '"'
  | '\x27' => some '\x27'
  | '\\' => some '\\'
  | 'N' => some '\u0085'
  | '_' => some '\u00a0'
  | 'L' => some '\u2028'
  | 'P' => some '\u2029'
  | _ => none

/-- How many hexadecimal digits follow the letter of a numeric escape. -/
def escapeLength? (c : Char) : Option Nat :=
  if c == 'x' then some 2 else if c == 'u' then some 4 else if c == 'U' then some 8 else none

/-- The character that hexadecimal digits stand for: all of them digits, and a Unicode scalar
value. -/
def ofHex? (digits : List Char) : Option Char := do
  let values ← digits.mapM fun d => Bytes.hexValue? (if d.toNat < 128 then d.toNat.toUInt8 else 0)
  let n := values.foldl (fun n d => 16 * n + d) 0
  if n < 0xD800 || (0xE000 ≤ n && n < 0x110000) then some (Char.ofNat n) else none

/-- How a stretch of a quoted scalar ended. -/
inductive Stop where
  /-- At white space or at the end of the text. -/
  | gap
  /-- After a line break that was escaped. -/
  | escapedBreak
  /-- At the closing quote. -/
  | closed

/-- The stretch of a quoted scalar up to white space or the closing quote, behind what was read of it
already, last character first. -/
def quotedStretch (quote : Char) :
    (fuel : Nat) → (done : List Char) → Cursor → Option (List Char × Stop × Cursor)
  | 0, done, c => some (done, .gap, c)
  | fuel + 1, done, c =>
    let go (done : List Char) (c : Cursor) : Option (List Char × Stop × Cursor) := do
      let c ← c.need 2
      quotedStretch quote fuel done c
    match c.head? with
    | none => some (done, .gap, c)
    | some x =>
      if isGap x then some (done, .gap, c)
      else if x == quote then
        if quote == '\x27' && c.at? 1 == some '\x27' then go ('\x27' :: done) (c.advance 2)
        else some (done, .closed, c)
      else if quote == '"' && x == '\\' then
        match c.at? 1 with
        | none => none
        | some e =>
          if isBreak e then do
            let c ← c.need 3
            return (done, .escapedBreak, (c.advance 1).skipLine)
          else
            match shortEscape? e, escapeLength? e with
            | some y, _ => go (y :: done) (c.advance 2)
            | none, some n => do
              let c ← (c.advance 2).need n
              let digits := c.rest.take n
              guard (digits.length == n)
              let y ← ofHex? digits
              go (y :: done) (c.advance n)
            | none, none => none
      else go (x :: done) (c.advance 1)

/-- The rest of a quoted scalar, after its opening quote. `done` is the content so far, last character
first. -/
def quotedFrom (quote : Char) :
    (fuel : Nat) → (done : List Char) → Cursor → Option (List Char × Cursor)
  | 0, _, _ => none
  | fuel + 1, done, c => do
    let c ← c.need 4
    guard (!c.atDocumentMarker && !c.rest.isEmpty)
    let (done, stop, c) ← quotedStretch quote (c.size + 1) done c
    let c ← c.need 1
    if c.isAt quote then return (done.reverse, c.advance 1)
    let gap : Gap :=
      match stop with
      | .escapedBreak => { broken := true }
      | _ => {}
    let (gap, c) ← readGap 0 (c.size + 1) gap c
    quotedFrom quote fuel (gap.content ++ done) c

/-- A quoted scalar, whose opening quote is at the cursor. -/
def quoted (c : Cursor) : Option (List Char × Cursor) := do
  let quote ← c.head?
  quotedFrom quote (c.size + 1) [] (c.advance 1)

/-! ## Block scalars -/

/-- What happens to the line breaks at the end of a block scalar. -/
inductive Chomp where
  | strip
  | clip
  | keep
deriving DecidableEq

/-- The chomping that a sign asks for. -/
def chomp? (c : Option Char) : Option Chomp :=
  if c == some '+' then some .keep else if c == some '-' then some .strip else none

/-- The indentation that a digit asks for; zero is none. -/
def blockIndent? (c : Option Char) : Option Nat :=
  match c with
  | some d => if d.isDigit then some (d.toNat - 48) else none
  | none => none

/-- The signs behind the mark of a block scalar: chomping and indentation in either order, each at
most once; an indentation of zero is an error. -/
def blockHeader (c : Cursor) : Option (Chomp × Nat × Cursor) := do
  let c ← c.need 1
  match chomp? c.head?, blockIndent? c.head? with
  | some chomp, _ =>
    let c ← (c.advance 1).need 1
    match blockIndent? c.head? with
    | some 0 => none
    | some n => return (chomp, n, c.advance 1)
    | none => return (chomp, 0, c)
  | none, some 0 => none
  | none, some n =>
    let c ← (c.advance 1).need 1
    match chomp? c.head? with
    | some chomp => return (chomp, n, c.advance 1)
    | none => return (.clip, n, c)
  | none, none => return (.clip, 0, c)

/-- The cursor after the spaces of an indentation. One of zero is not yet known, and all spaces
belong to it. -/
def overIndent (indent : Nat) : (fuel : Nat) → Cursor → Option Cursor
  | 0, c => some c
  | fuel + 1, c => do
    let c ← c.need 1
    if (indent == 0 || c.column < indent) && c.isAt ' ' then overIndent indent fuel (c.advance 1)
    else return c

/-- The empty lines and the indentation in front of a line of a block scalar: the line breaks, last
first, the deepest column reached, and the cursor. An indentation of zero is not yet known. -/
def blockGap (indent : Nat) :
    (fuel : Nat) → (breaks : List Char) → (deepest : Nat) → Cursor →
      Option (List Char × Nat × Cursor)
  | 0, breaks, deepest, c => some (breaks, deepest, c)
  | fuel + 1, breaks, deepest, c => do
    let c ← overIndent indent (c.size + 1) c
    let deepest := max deepest c.column
    if (indent == 0 || c.column < indent) && c.isAt '\t' then none
    else if c.head?.any isBreak then
      let c ← c.need 2
      let (text, c) := c.lineBreak
      blockGap indent fuel (text ++ breaks) deepest c
    else return (breaks, deepest, c)

/-- The lines of a block scalar, last character first. `done` is the content so far, `first` the line
break after it and `more` the empty lines after that. -/
def blockLines (literal : Bool) (indent : Nat) :
    (fuel : Nat) → (done first more : List Char) → (blankBefore : Bool) → Cursor →
      Option (List Char × List Char × List Char × Cursor)
  | 0, done, first, more, _, c => some (done, first, more, c)
  | fuel + 1, done, first, more, blankBefore, c => do
    if c.column != indent || c.rest.isEmpty then return (done, first, more, c)
    let blankHere := c.head?.any isBlank
    let fold := !literal && !blankBefore && !blankHere && first.head? == some '\n'
    let joint := if fold then (if more.isEmpty then [' '] else []) else first
    let (line, c) ← c.takeWhile fun x => !isBreak x
    let done := line.reverse ++ (more ++ (joint ++ done))
    let c ← c.need 2
    let (first, c) := c.lineBreak
    let (more, _, c) ← blockGap indent (c.size + 1) [] 0 c
    blockLines literal indent fuel done first more blankHere c

/-- A block scalar, whose mark is at the cursor, inside a collection with a given indentation. -/
def blockScalar (literal : Bool) (parent : Int) (c : Cursor) : Option (List Char × Cursor) := do
  let (chomp, increment, c) ← blockHeader (c.advance 1)
  let c ← c.skipWhile isBlank
  let c ← if c.isAt '#' then c.overLineComment else pure c
  guard (endsLine c.head?)
  let c ← c.pastLineEnd
  let asked : Nat := if increment == 0 then 0 else (max parent 0).toNat + increment
  let (more, deepest, c) ← blockGap asked (c.size + 1) [] 0 c
  let indent := if asked == 0 then max (max deepest (parent + 1).toNat) 1 else asked
  let c ← c.need 1
  let (done, first, more, c) ← blockLines literal indent (c.size + 1) [] [] more false c
  let tail :=
    match chomp with
    | .strip => []
    | .clip => first
    | .keep => more ++ first
  return ((tail ++ done).reverse, c)

end ClassOutline.Yaml
