import ClassOutline.Pattern.Regex
import ClassOutline.Text.Rune

/-!
# Reading regular expressions

The usual notation: alternatives, groups, bracketed classes, the repetitions `*`, `+`, `?` and
`{n,m}`, anchors, and escapes with a backslash. A text that is no expression gives none: one with an
unbalanced bracket, a repetition of nothing or of a repetition, or an escape without meaning.
Options in a group (`(?`) and classes by property are not part of it.
-/

namespace ClassOutline.Regex

/-! ## Escapes -/

/-- The value of a hexadecimal digit. -/
def hexDigit? (c : Nat) : Option Nat := if c < 128 then Bytes.hexValue? c.toUInt8 else none

/-- Whether a code point is an octal digit. -/
def isOctal (c : Nat) : Bool := 0x30 ≤ c && c ≤ 0x37

/-- Whether a code point is an ASCII letter or digit. -/
def isAlnum (c : Nat) : Bool :=
  c < 128 && (Bytes.isLetter c.toUInt8 || Bytes.isDigit c.toUInt8)

/-- The number of hexadecimal digits up to a closing brace, and the text after it. -/
def bracedHex (seen : Bool) (value : Nat) : List Nat → Option (Nat × List Nat)
  | [] => none
  | c :: rest =>
    if c == 0x7D then if seen then some (value, rest) else none
    else
      match hexDigit? c with
      | some d => if 0x10FFFF < 16 * value + d then none else bracedHex true (16 * value + d) rest
      | none => none

/-- The character that an escape after a backslash stands for, and the text after it. -/
def escaped : List Nat → Option (Nat × List Nat)
  | [] => none
  | c :: rest =>
    if isOctal c then
      let digits := (rest.take 2).takeWhile isOctal
      if c != 0x30 && digits.isEmpty then none
      else
        let value := digits.foldl (fun n d => 8 * n + (d - 0x30)) (c - 0x30)
        some (value, rest.drop digits.length)
    else if c == 0x78 then
      match rest with
      | 0x7B :: rest => bracedHex false 0 rest
      | a :: b :: rest => do
        let x ← hexDigit? a
        let y ← hexDigit? b
        return (16 * x + y, rest)
      | _ => none
    else if c == 0x61 then some (7, rest)
    else if c == 0x66 then some (12, rest)
    else if c == 0x6E then some (10, rest)
    else if c == 0x72 then some (13, rest)
    else if c == 0x74 then some (9, rest)
    else if c == 0x76 then some (11, rest)
    else if c < 128 && !isAlnum c then some (c, rest)
    else none

/-! ## Classes -/

/-- Digits. -/
def digits : List (Nat × Nat) := [(0x30, 0x39)]

/-- White space. -/
def blanks : List (Nat × Nat) := [(9, 10), (12, 13), (0x20, 0x20)]

/-- Letters. -/
def letters : List (Nat × Nat) := [(0x41, 0x5A), (0x61, 0x7A)]

/-- Letters, digits and the underscore. -/
def wordChars : List (Nat × Nat) := letters ++ digits ++ [(0x5F, 0x5F)]

/-- The members of a class that is given by ranges, or of what lies outside them. -/
def itemsOf (negated : Bool) (ranges : List (Nat × Nat)) : List ClassItem :=
  if negated then [.outside ranges] else ranges.map fun r => .range r.1 r.2

/-- The class that a letter after a backslash stands for. -/
def letterClass? (c : Nat) : Option (List ClassItem) :=
  if c == 0x64 then some (itemsOf false digits)
  else if c == 0x44 then some (itemsOf true digits)
  else if c == 0x73 then some (itemsOf false blanks)
  else if c == 0x53 then some (itemsOf true blanks)
  else if c == 0x77 then some (itemsOf false wordChars)
  else if c == 0x57 then some (itemsOf true wordChars)
  else none

/-- The ranges of a class that has a name. -/
def namedRanges? (name : String) : Option (List (Nat × Nat)) :=
  match name with
  | "alnum" => some (letters ++ digits)
  | "alpha" => some letters
  | "ascii" => some [(0, 0x7F)]
  | "blank" => some [(9, 9), (0x20, 0x20)]
  | "cntrl" => some [(0, 0x1F), (0x7F, 0x7F)]
  | "digit" => some digits
  | "graph" => some [(0x21, 0x7E)]
  | "lower" => some [(0x61, 0x7A)]
  | "print" => some [(0x20, 0x7E)]
  | "punct" => some [(0x21, 0x2F), (0x3A, 0x40), (0x5B, 0x60), (0x7B, 0x7E)]
  | "space" => some [(9, 13), (0x20, 0x20)]
  | "upper" => some [(0x41, 0x5A)]
  | "word" => some wordChars
  | "xdigit" => some (digits ++ [(0x41, 0x46), (0x61, 0x66)])
  | _ => none

/-- The text before the first `:]` and the text after it. -/
def beforeClose : List Nat → Option (List Nat × List Nat)
  | 0x3A :: 0x5D :: rest => some ([], rest)
  | c :: rest => (beforeClose rest).map fun r => (c :: r.1, r.2)
  | [] => none

/-- One end of a range in a class. -/
def classChar : List Nat → Option (Nat × List Nat)
  | [] => none
  | 0x5C :: rest => escaped rest
  | c :: rest => some (c, rest)

/-- A range, or a single character, in a class. -/
def classRange (s : List Nat) : Option (ClassItem × List Nat) := do
  let (low, rest) ← classChar s
  match rest with
  | 0x2D :: next :: more =>
    if next == 0x5D then return (.range low low, rest)
    let (high, rest) ← classChar (next :: more)
    guard (low ≤ high)
    return (.range low high, rest)
  | _ => return (.range low low, rest)

/-- A member of a class, and the text after it. -/
def classItem (s : List Nat) : Option (List ClassItem × List Nat) :=
  let single := (classRange s).map fun r => ([r.1], r.2)
  match s with
  | 0x5B :: 0x3A :: rest =>
    match beforeClose rest with
    | none => single
    | some (name, rest) =>
      let negated := name.head? == some 0x5E
      let word := String.ofList ((if negated then name.tail else name).map Char.ofNat)
      (namedRanges? word).map fun ranges => (itemsOf negated ranges, rest)
  | 0x5C :: c :: rest =>
    match letterClass? c with
    | some items => some (items, rest)
    | none => single
  | _ => single

/-- The members of a class up to its closing bracket, which may not be the first of them. -/
def classItems : (fuel : Nat) → (first : Bool) → List ClassItem → List Nat →
    Option (List ClassItem × List Nat)
  | 0, _, _, _ => none
  | fuel + 1, first, acc, s =>
    if !first && s.head? == some 0x5D then some (acc, s.tail)
    else
      match classItem s with
      | none => none
      | some (items, rest) => classItems fuel false (acc ++ items) rest

/-- A class after its opening bracket. -/
def bracketed (s : List Nat) : Option (Regex × List Nat) :=
  let negated := s.head? == some 0x5E
  let s := if negated then s.tail else s
  (classItems (s.length + 1) true [] s).map fun r => (.chars negated r.1, r.2)

/-! ## Repetitions -/

/-- A number in a repetition. A zero in front of other digits is no number. -/
def count? (s : List Nat) : Option (Nat × List Nat) :=
  let isDigit (c : Nat) : Bool := 0x30 ≤ c && c ≤ 0x39
  let run := s.takeWhile isDigit
  if run.isEmpty || (run.head? == some 0x30 && 1 < run.length) then none
  else some (run.foldl (fun n d => 10 * n + (d - 0x30)) 0, s.drop run.length)

/-- The bounds of a repetition after its opening brace, and the text after it. -/
def bounds? (s : List Nat) : Option (Nat × Option Nat × List Nat) := do
  let (min, rest) ← count? s
  match rest with
  | 0x7D :: rest => return (min, some min, rest)
  | 0x2C :: 0x7D :: rest => return (min, none, rest)
  | 0x2C :: rest =>
    let (max, rest) ← count? rest
    match rest with
    | 0x7D :: rest => return (min, some max, rest)
    | _ => none
  | _ => none

/-- The greatest number of copies. -/
def maxCopies : Nat := 1000

/-! ## Expressions -/

/-- An open group: its finished alternatives and the parts of the current one, last first. -/
structure Group where
  alternatives : List Regex := []
  parts : List Regex := []

/-- The alternative that is being read. -/
def Group.current (g : Group) : Regex := catAll g.parts.reverse

/-- The expression of a group. -/
def Group.close (g : Group) : Regex := g.alternatives.foldl (fun r a => .alt a r) g.current

/-- The group with one more part. -/
def Group.add (g : Group) (r : Regex) : Group := { g with parts := r :: g.parts }

/-- The group with its last part repeated. -/
def Group.repeatLast (g : Group) (min : Nat) (max : Option Nat) : Option Group :=
  match g.parts with
  | [] => none
  | r :: parts => some { g with parts := .rep r min max :: parts }

/-- The text up to the end of a literal stretch, and the text after it. -/
def literalStretch : List Nat → List Nat × List Nat
  | [] => ([], [])
  | 0x5C :: 0x45 :: rest => ([], rest)
  | c :: rest =>
    let r := literalStretch rest
    (c :: r.1, r.2)

/-- What a backslash outside a class stands for: some parts, and the text after them. -/
def backslash (s : List Nat) : Option (List Regex × List Nat) :=
  match s with
  | [] => none
  | c :: rest =>
    if c == 0x41 then some ([.start], rest)
    else if c == 0x7A then some ([.finish], rest)
    else if c == 0x62 then some ([.edge false], rest)
    else if c == 0x42 then some ([.edge true], rest)
    else if c == 0x51 then
      let (stretch, rest) := literalStretch rest
      some (stretch.map char, rest)
    else
      match letterClass? c with
      | some items => some ([.chars false items], rest)
      | none => (escaped s).map fun r => ([char r.1], r.2)

/-- Reads an expression. `group` is the innermost open group, `outer` those around it, and
`repeated` says whether the last thing read was a repetition. -/
def readFrom : (fuel : Nat) → (group : Group) → (outer : List Group) → (repeated : Bool) →
    List Nat → Option Regex
  | _, group, outer, _, [] => if outer.isEmpty then some group.close else none
  | 0, _, _, _, _ :: _ => none
  | fuel + 1, group, outer, repeated, c :: rest =>
    let part (r : Regex) (rest : List Nat) : Option Regex :=
      readFrom fuel (group.add r) outer false rest
    let repetition (min : Nat) (max : Option Nat) (rest : List Nat) : Option Regex :=
      let rest := if rest.head? == some 0x3F then rest.tail else rest
      if repeated then none
      else
        match group.repeatLast min max with
        | none => none
        | some group =>
          if group.parts.head?.all (copiesWithin maxCopies) then
            readFrom fuel group outer true rest
          else none
    if c == 0x28 then
      if rest.head? == some 0x3F then none else readFrom fuel {} (group :: outer) false rest
    else if c == 0x29 then
      match outer with
      | [] => none
      | g :: outer => readFrom fuel (g.add group.close) outer false rest
    else if c == 0x7C then
      readFrom fuel { alternatives := group.current :: group.alternatives } outer false rest
    else if c == 0x5E then part .start rest
    else if c == 0x24 then part .finish rest
    else if c == 0x2E then part dot rest
    else if c == 0x2A then repetition 0 none rest
    else if c == 0x2B then repetition 1 none rest
    else if c == 0x3F then repetition 0 (some 1) rest
    else if c == 0x7B then
      match bounds? rest with
      | none => part (char c) rest
      | some (min, max, rest) =>
        if maxCopies < min || max.any fun n => maxCopies < n || n < min then none
        else repetition min max rest
    else if c == 0x5B then
      match bracketed rest with
      | none => none
      | some (r, rest) => part r rest
    else if c == 0x5C then
      match backslash rest with
      | none => none
      | some (rs, rest) =>
        readFrom fuel { group with parts := rs.reverse ++ group.parts } outer false rest
    else part (char c) rest

/-- The expression that a text spells. The text has to be UTF-8. -/
def read (s : Bytes) : Option Regex :=
  if s.isUtf8 then readFrom s.length {} [] false (s.runes.map Rune.code) else none

end ClassOutline.Regex
