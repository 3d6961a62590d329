import ClassOutline.Text.Quoted

/-!
# Addresses

The part of a URL that names a repository: scheme, host and path. Escapes of two hexadecimal digits
after a percent sign are undone in the path and, for bytes outside ASCII, in the host. A text that
is no URL has a fault with its own wording (`UrlFault.text`).
-/

namespace ClassOutline

/-- Why a text is no URL. -/
inductive UrlFault where
  | control
  | noScheme
  | colonInPath
  | openBracket
  | badPort (port : Bytes)
  | badUser
  | badEscape (escape : Bytes)
  | badHost (char : Bytes)
deriving DecidableEq, Repr

/-- The fault in words. -/
def UrlFault.text : UrlFault → Bytes
  | .control => Bytes.ofString "net/url: invalid control character in URL"
  | .noScheme => Bytes.ofString "missing protocol scheme"
  | .colonInPath => Bytes.ofString "first path segment in URL cannot contain colon"
  | .openBracket => Bytes.ofString "missing ']' in host"
  | .badPort port => Bytes.ofString "invalid port " ++ port.quoted ++ Bytes.ofString " after host"
  | .badUser => Bytes.ofString "net/url: invalid userinfo"
  | .badEscape escape => Bytes.ofString "invalid URL escape " ++ escape.quoted
  | .badHost char =>
    Bytes.ofString "invalid character " ++ char.quoted ++ Bytes.ofString " in host name"

/-- A URL, as far as it matters here. -/
structure Url where
  scheme : Bytes
  host : Bytes
  path : Bytes
deriving DecidableEq, Repr

namespace Url

/-! ## Percent escapes -/

/-- What the unescaped bytes and the escapes of a part have to satisfy. -/
structure Rules where
  /-- The bytes that may stand as they are. -/
  plain : UInt8 → Bool
  /-- The bytes that may be escaped. -/
  escapable : UInt8 → Bool

/-- The text with its escapes undone. -/
def unescape (rules : Rules) : Bytes → Except UrlFault Bytes
  | [] => .ok []
  | 0x25 :: a :: b :: s =>
    match Bytes.hexValue? a, Bytes.hexValue? b with
    | some x, some y =>
      let byte := (16 * x + y).toUInt8
      if rules.escapable byte then (unescape rules s).map (byte :: ·)
      else .error (.badEscape [0x25, a, b])
    | _, _ => .error (.badEscape [0x25, a, b])
  | b :: s =>
    if b == 0x25 then .error (.badEscape (b :: s))
    else if rules.plain b then (unescape rules s).map (b :: ·)
    else .error (.badHost [b])

/-- A part in which everything may stand. -/
def anything : Rules := ⟨fun _ => true, fun _ => true⟩

/-- A byte that may stand in a host: anything outside ASCII, letters, digits and some marks. -/
def isHostByte (b : UInt8) : Bool :=
  0x80 ≤ b || Bytes.isLetter b || Bytes.isDigit b ||
    List.elem b (Bytes.ofString "!$&\x27()*+,;=:[]<>\"-_.~")

/-- In a host only bytes outside ASCII, and the percent sign itself, may be escaped. -/
def hostRules : Rules := ⟨isHostByte, fun b => 0x80 ≤ b || b == 0x25⟩

/-- In the zone of an address in brackets the percent sign, a space and the ASCII bytes that could
stand there anyway may be escaped. -/
def zoneRules : Rules :=
  ⟨isHostByte, fun b => b == 0x25 || b == 0x20 || (b < 0x80 && isHostByte b)⟩

/-! ## Parts -/

/-- A byte that cannot stand in a URL at all. -/
def isControl (b : UInt8) : Bool := b < 0x20 || b == 0x7F

/-- The scheme in front of a text and what follows its colon. A text without a scheme is left
whole. -/
def splitScheme (s : Bytes) : Except UrlFault (Bytes × Bytes) :=
  let isMark (b : UInt8) : Bool := Bytes.isDigit b || b == 0x2B || b == 0x2D || b == 0x2E
  let word := s.takeWhile fun b => Bytes.isLetter b || isMark b
  match s.drop word.length with
  | 0x3A :: rest =>
    match word with
    | [] => .error .noScheme
    | b :: _ => .ok (if isMark b then ([], s) else (word, rest))
  | _ => .ok ([], s)

/-- The text before a byte, and the text after it if the byte occurs. -/
def splitAt (sep : UInt8) (s : Bytes) : Bytes × Bytes :=
  (s.takeWhile (· != sep), (s.dropWhile (· != sep)).drop 1)

/-- The text before the last occurrence of a byte and the text from it on. -/
def splitLast? (sep : UInt8) (s : Bytes) : Option (Bytes × Bytes) :=
  let tail := (s.reverse.takeWhile (· != sep)).reverse
  if tail.length == s.length then none
  else some (s.take (s.length - tail.length - 1), sep :: tail)

/-- A port after a host: nothing, or a colon and digits. -/
def isPort : Bytes → Bool
  | [] => true
  | b :: digits => b == 0x3A && digits.all Bytes.isDigit

/-- The first place of the escaped percent sign that starts a zone. -/
def zoneAt (s : Bytes) : Option (Bytes × Bytes) :=
  let rec go (before : Bytes) : Bytes → Option (Bytes × Bytes)
    | [] => none
    | b :: s =>
      if [0x25, 0x32, 0x35].isPrefixOf (b :: s) then some (before.reverse, b :: s)
      else go (b :: before) s
  go [] s

/-- A host with an optional port. -/
def readHost (s : Bytes) : Except UrlFault Bytes :=
  if s.head? == some 0x5B then
    match splitLast? 0x5D s with
    | none => .error .openBracket
    | some (address, rest) =>
      if isPort (rest.drop 1) then
        match zoneAt address with
        | some (front, zone) => do
          return (← unescape hostRules front) ++ (← unescape zoneRules zone) ++
            (← unescape hostRules rest)
        | none => unescape hostRules s
      else .error (.badPort (rest.drop 1))
  else
    match splitLast? 0x3A s with
    | some (_, port) => if isPort port then unescape hostRules s else .error (.badPort port)
    | none => unescape hostRules s

/-- A byte that may stand before the host. -/
def isUserByte (b : UInt8) : Bool :=
  Bytes.isLetter b || Bytes.isDigit b || List.elem b (Bytes.ofString "-._:~!$&\x27()*+,;=%@")

/-- The host of an authority, which may have a user in front. -/
def readAuthority (s : Bytes) : Except UrlFault Bytes :=
  match splitLast? 0x40 s with
  | none => readHost s
  | some (user, rest) => do
    let h ← readHost (rest.drop 1)
    if !user.all isUserByte then .error .badUser
    else
      let (name, password) := splitAt 0x3A user
      let _ ← unescape anything name
      let _ ← unescape anything password
      return h

/-- A URL without fragment. -/
def ofPlain (s : Bytes) : Except UrlFault Url := do
  if s.any isControl then .error .control
  else if s == [0x2A] then .ok ⟨[], [], s⟩
  else
    let (word, rest) ← splitScheme s
    let scheme := word.map Bytes.lowerByte
    let (rest, _) := splitAt 0x3F rest
    if rest.head? != some 0x2F then
      if !scheme.isEmpty then .ok ⟨scheme, [], []⟩
      else if List.elem 0x3A (splitAt 0x2F rest).1 then .error .colonInPath
      else return ⟨[], [], ← unescape anything rest⟩
    else if [0x2F, 0x2F].isPrefixOf rest &&
        (!scheme.isEmpty || !([0x2F, 0x2F, 0x2F].isPrefixOf rest)) then
      let after := rest.drop 2
      let h ← readAuthority (after.takeWhile (· != 0x2F))
      return ⟨scheme, h, ← unescape anything (after.dropWhile (· != 0x2F))⟩
    else return ⟨scheme, [], ← unescape anything rest⟩

/-- The URL of a text, or the text that is at fault and the fault. -/
def parse (s : Bytes) : Except (Bytes × UrlFault) Url := do
  let (front, fragment) := splitAt 0x23 s
  let url ← (ofPlain front).mapError fun f => (front, f)
  let _ ← (unescape anything fragment).mapError fun f => (s, f)
  return url

end Url

end ClassOutline
