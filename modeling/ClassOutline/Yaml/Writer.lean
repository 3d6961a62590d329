import ClassOutline.Json.Basic
import ClassOutline.Text.Base64
import ClassOutline.Yaml.Resolve

/-!
# Writing YAML

The text of a value in block style: one entry per line, a list under a key further in than the key,
and empty collections in brackets. A string is written plain where that reads back as the same
string, and otherwise in the quietest style that holds it:

* in double quotes where the plain text would stand for something else (`true`, `12`, `~`);
* as a literal block where it has several lines;
* in single quotes where an indicator would be misread;
* in double quotes, with escapes, where a character cannot be shown;
* as base64 under the tag `!!binary` where it is not UTF-8.
-/

namespace ClassOutline.Yaml

/-! ## Looking at a string -/

/-- A line break of any kind. -/
def isBreakCode (c : Nat) : Bool :=
  c == 10 || c == 13 || c == 0x85 || c == 0x2028 || c == 0x2029

/-- A character that is written as it is. -/
def isShownCode (c : Nat) : Bool :=
  c == 10 || (0x20 ≤ c && c ≤ 0x7E) || (0xA0 ≤ c && c ≤ 0xD7FF) ||
    (0xE000 ≤ c && c ≤ 0xFFFD && c != 0xFEFF)

/-- A space or a tab. -/
def isBlankCode (c : Nat) : Bool := c == 0x20 || c == 9

/-- Whether a list of code points has one of a class right before one of another class. -/
def hasPair (p q : Nat → Bool) : List Nat → Bool
  | a :: b :: rest => (p a && q b) || hasPair p q (b :: rest)
  | _ => false

/-- Whether the text after a character starts a new word: it is empty or begins with a blank. -/
def startsWord (rest : List Nat) : Bool := rest.head?.all isBlankCode

/-- Indicators that cannot begin a plain scalar. -/
def isIndicator (c : Nat) : Bool :=
  (Bytes.ofString "#,[]\x7b\x7d&*!|>\x27\"%@`").any fun b => b.toNat == c

/-- Whether the first characters of a scalar would be misread outside quotes. -/
def misreadStart : List Nat → Bool
  | [] => false
  | c :: rest =>
    isIndicator c || ((c == 0x3F || c == 0x3A || c == 0x2D) && startsWord rest) ||
      [0x2D, 0x2D, 0x2D].isPrefixOf (c :: rest) || [0x2E, 0x2E, 0x2E].isPrefixOf (c :: rest)

/-- Whether a later character of a scalar would be misread outside quotes: a colon at the end of a
word, or a number sign at its start. -/
def misreadLater : List Nat → Bool
  | a :: b :: rest =>
    (b == 0x3A && startsWord rest) || (b == 0x23 && (isBlankCode a || isBreakCode a || a == 0)) ||
      misreadLater (b :: rest)
  | _ => false

/-- What the choice of a style depends on. -/
structure Traits where
  /-- A plain scalar would be misread. -/
  indicators : Bool
  /-- There is a line break. -/
  breaks : Bool
  /-- A space or a line break stands at an end. -/
  looseEnds : Bool
  /-- A space stands at the end. -/
  spaceAtEnd : Bool
  /-- A space stands right before a line break. -/
  spaceBreak : Bool
  /-- A space stands right after a line break. -/
  breakSpace : Bool
  /-- There is a tab. -/
  tabs : Bool
  /-- There is a character other than a tab that cannot be shown. -/
  special : Bool

/-- The traits of a string. -/
def Traits.of (codes : List Nat) : Traits where
  indicators := misreadStart codes || misreadLater codes
  breaks := codes.any isBreakCode
  looseEnds :=
    let loose (c : Nat) : Bool := c == 0x20 || isBreakCode c
    codes.head?.any loose || codes.getLast?.any loose
  spaceAtEnd := codes.getLast? == some 0x20
  spaceBreak := hasPair (· == 0x20) isBreakCode codes
  breakSpace := hasPair isBreakCode (· == 0x20) codes
  tabs := codes.contains 9
  special := codes.any fun c => c != 9 && !isShownCode c

/-! ## Styles -/

/-- The styles of a scalar. -/
inductive Style where
  | plain
  | single
  | double
  | literal
deriving DecidableEq, Repr

/-- The style for a string that is to be plain. -/
def Traits.plainStyle (t : Traits) : Style :=
  if t.spaceBreak || t.breakSpace || t.tabs || t.special then .double
  else if t.indicators || t.breaks || t.looseEnds then .single
  else .plain

/-- The style for a string of several lines. -/
def Traits.linesStyle (t : Traits) : Style :=
  if t.spaceAtEnd || t.spaceBreak || t.special then .double else .literal

/-- The part after the digits of a number in base sixty: colons with one or two digits each, and
perhaps a point with more digits. -/
def sixtiethsFrom : (fuel : Nat) → Bytes → Bool
  | 0, _ => false
  | fuel + 1, s =>
    let isSix (b : UInt8) : Bool := 0x30 ≤ b && b ≤ 0x35
    let after (t : Bytes) : Bool :=
      match t with
      | [] => true
      | 0x2E :: d => d.all fun b => Bytes.isDigit b || b == 0x5F
      | t => sixtiethsFrom fuel t
    match s with
    | 0x3A :: a :: b :: t =>
      (isSix a && Bytes.isDigit b && after t) || (Bytes.isDigit a && after (b :: t))
    | [0x3A, a] => Bytes.isDigit a
    | _ => false

/-- Whether a text is a number in base sixty, which older readers take for a number. -/
def isSixtieths (s : Bytes) : Bool :=
  match (Number.sign s).2 with
  | b :: t =>
    let rest := t.dropWhile fun b => Bytes.isDigit b || b == 0x5F
    Bytes.isDigit b && sixtiethsFrom rest.length rest
  | [] => false

/-- The words that older readers take for truth values. -/
def isOldTruth (s : Bytes) : Bool :=
  ["y", "Y", "yes", "Yes", "YES", "on", "On", "ON", "n", "N", "no", "No", "NO", "off", "Off",
    "OFF"].any fun w => Bytes.ofString w == s

/-- Whether a string may be written plain as far as its meaning goes. -/
def readsAsText (s : Bytes) : Bool :=
  (resolve true s).tag == Tag.str && !(isSixtieths s || isOldTruth s)

/-! ## The text of a scalar -/

/-- Spaces. -/
def spaces (n : Nat) : Bytes := List.replicate n 0x20

/-- A number as upper-case hexadecimal digits. -/
def upperHex (count n : Nat) : Bytes :=
  (List.range count).reverse.map fun k =>
    let d := n / Nat.pow 16 k % 16
    if d < 10 then (48 + d).toUInt8 else (55 + d).toUInt8

/-- The letter of a short escape. -/
def escapeLetter? (c : Nat) : Option Char :=
  match c with
  | 0 => some '0'
  | 7 => some 'a'
  | 8 => some 'b'
  | 9 => some 't'
  | 10 => some 'n'
  | 11 => some 'v'
  | 12 => some 'f'
  | 13 => some 'r'
  | 0x1B => some 'e'
  | 0x22 => some '"'
  | 0x5C => some '\\'
  | 0x85 => some 'N'
  | 0xA0 => some '_'
  | 0x2028 => some 'L'
  | 0x2029 => some 'P'
  | _ => none

/-- The escape of a character. -/
def escaped (c : Nat) : Bytes :=
  match escapeLetter? c with
  | some letter => [0x5C, letter.toNat.toUInt8]
  | none =>
    if c ≤ 0xFF then [0x5C, 0x78] ++ upperHex 2 c
    else if c ≤ 0xFFFF then [0x5C, 0x75] ++ upperHex 4 c
    else [0x5C, 0x55] ++ upperHex 8 c

/-- Whether a character stands in double quotes as it is. -/
def standsInQuotes (c : Nat) : Bool := isShownCode c && !isBreakCode c && c != 0x22 && c != 0x5C

/-- A text in double quotes. In one that begins with a byte order mark every character is
escaped. -/
def doubleQuoted (codes : List Nat) : Bytes :=
  let marked := codes.head? == some 0xFEFF
  codes.flatMap fun c => if standsInQuotes c && !marked then Bytes.ofCodePoint c else escaped c

/-- The characters of a scalar with each line after the first indented. Quotes are doubled where
`quotes` says so. -/
def continued (indent : Nat) (quotes : Bool) : (atBreak : Bool) → List Nat → Bytes
  | _, [] => []
  | atBreak, c :: rest =>
    if isBreakCode c then Bytes.ofCodePoint c ++ continued indent quotes true rest
    else
      (if atBreak then spaces indent else []) ++ (if quotes && c == 0x27 then [0x27] else []) ++
        Bytes.ofCodePoint c ++ continued indent quotes false rest

/-- What the header of a literal block says about its content: the indentation where the content
begins with a space or a line break, and what becomes of the breaks at its end. -/
def blockHints (best : Nat) (codes : List Nat) : Bytes :=
  let lead := codes.head?.any fun c => c == 0x20 || isBreakCode c
  let chomp : Bytes :=
    match codes.reverse with
    | [] => [0x2D]
    | [c] => if isBreakCode c then [0x2B] else [0x2D]
    | c :: d :: _ =>
      if !isBreakCode c then [0x2D] else if isBreakCode d then [0x2B] else []
  (if lead then Bytes.ofInt best else []) ++ chomp

/-- A literal block. A line break at the start of the content is taken for the one that ends the
header. -/
def literal (best indent : Nat) (codes : List Nat) : Bytes :=
  let start : Bytes := if codes.head?.any isBreakCode then [] else [10]
  0x7C :: (blockHints best codes ++ start ++ continued indent false true codes)

/-- A string in a style. -/
def styled (best indent : Nat) (style : Style) (codes : List Nat) : Bytes :=
  match style with
  | .plain => codes.flatMap Bytes.ofCodePoint
  | .single => 0x27 :: (continued indent true false codes ++ [0x27])
  | .double => 0x22 :: (doubleQuoted codes ++ [0x22])
  | .literal => literal best indent codes

/-- Base64 in lines of 70 characters, or as it is where it fits one line. -/
def base64Lines (s : Bytes) : Bytes :=
  let text := Base64.encode s
  if text.length < 70 then text else go text.length text
where
  go : Nat → Bytes → Bytes
    | 0, _ => []
    | fuel + 1, t => if t.isEmpty then [] else t.take 70 ++ 10 :: go fuel (t.drop 70)

/-- A string. -/
def string (best indent : Nat) (s : Bytes) : Bytes :=
  let isText := s.isUtf8
  let content := if isText then s else base64Lines s
  let codes := content.runes.map Rune.code
  let traits := Traits.of codes
  let style : Style :=
    if codes.contains 10 then traits.linesStyle
    else if isText && !readsAsText s then .double
    else traits.plainStyle
  (if isText then [] else Bytes.ofString "!!binary ") ++ styled best indent style codes

/-- A value on one line, or an empty collection. -/
def scalar (best indent : Nat) : Json → Bytes
  | .null => Bytes.ofString "null"
  | .bool true => Bytes.ofString "true"
  | .bool false => Bytes.ofString "false"
  | .num text => text
  | .str s => string best indent s
  | .arr _ => [0x5B, 0x5D]
  | .obj _ => [0x7B, 0x7D]

/-- The text of a scalar with the end of its line, which a block may have brought along. -/
def line (best indent : Nat) (j : Json) : Bytes :=
  let text := scalar best indent j
  if (text.runes.getLast?).any fun r => isBreakCode r.code then text else text ++ [10]

/-! ## Collections -/

/-- The indentation of what stands under a key: the next multiple of the chosen step. -/
def deeper (best indent : Nat) : Nat := best * ((indent + best) / best)

mutual

/-- The entries of a mapping at an indentation. Before the first one it may be there already. -/
def members (best indent : Nat) (first : Bool) : List (Bytes × Json) → Bytes
  | [] => []
  | (key, value) :: rest =>
    (if first then [] else spaces indent) ++ key ++ 0x3A :: afterKey best indent value ++
      members best indent false rest

/-- The items of a list at an indentation. Before the first one it may be there already. -/
def items (best indent : Nat) (first : Bool) : List Json → Bytes
  | [] => []
  | value :: rest =>
    (if first then [] else spaces indent) ++ 0x2D :: 0x20 :: afterDash best indent value ++
      items best indent false rest

/-- The value of a key. -/
def afterKey (best indent : Nat) : Json → Bytes
  | .arr (item :: rest) => 10 :: items best (deeper best indent) false (item :: rest)
  | .obj (member :: rest) => 10 :: members best (deeper best indent) false (member :: rest)
  | value => 0x20 :: line best (deeper best indent) value

/-- An item after its dash. -/
def afterDash (best indent : Nat) : Json → Bytes
  | .arr (item :: rest) => items best (indent + 2) true (item :: rest)
  | .obj (member :: rest) => members best (indent + 2) true (member :: rest)
  | value => line best (indent + 2) value

end

/-- The text of a document, whose levels are `best` spaces apart. -/
def write (best : Nat) : Json → Bytes
  | .obj (member :: rest) => members best 0 false (member :: rest)
  | .arr (item :: rest) => items best 0 false (item :: rest)
  | value => line best best value

end ClassOutline.Yaml
