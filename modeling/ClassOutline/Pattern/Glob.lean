import ClassOutline.Text.Rune

/-!
# Globs

A glob is a pattern for the name of a file: `*` stands for any run of characters, `?` for one
character, and a bracketed class for one of its members; none but a class reaches over a slash. A
backslash takes the meaning from the character after it. A text that is no pattern matches no name.

A pattern is a chunk of single-character pieces and then more chunks with a star before each. The
match is the leftmost one for each chunk in turn.
-/

namespace ClassOutline

/-- A piece of a glob, which stands for one character. -/
inductive GlobPiece where
  | byte (b : UInt8)
  | any
  | oneOf (negated : Bool) (ranges : List (Nat × Nat))
deriving DecidableEq, Repr

/-- A glob: what the name begins with, and the chunks after each star. -/
structure Glob where
  head : List GlobPiece
  starred : List (List GlobPiece)
deriving DecidableEq, Repr

namespace Glob

/-! ## Reading -/

/-- A bound of a range in a class. Something has to follow it. -/
def bound : List Rune → Option (Nat × List Rune)
  | [] => none
  | r :: rest =>
    if r.code == 0x2D || r.code == 0x5D then none
    else
      match if r.code == 0x5C then rest else r :: rest with
      | [] => none
      | r :: rest => if r.isInvalid || rest.isEmpty then none else some (r.code, rest)

/-- The ranges of a class up to its closing bracket. There is at least one. -/
def ranges : (fuel : Nat) → List (Nat × Nat) → List Rune → Option (List (Nat × Nat) × List Rune)
  | 0, _, _ => none
  | fuel + 1, acc, s =>
    if !acc.isEmpty && (s.head?.any fun r => r.code == 0x5D) then some (acc, s.tail)
    else
      match bound s with
      | none => none
      | some (low, rest) =>
        if rest.head?.any fun r => r.code == 0x2D then
          match bound rest.tail with
          | none => none
          | some (high, rest) => ranges fuel (acc ++ [(low, high)]) rest
        else ranges fuel (acc ++ [(low, low)]) rest

/-- The glob with a piece in front. -/
def cons (p : GlobPiece) (g : Glob) : Glob := { g with head := p :: g.head }

/-- The glob with pieces for the bytes of a character in front. -/
def consRune (r : Rune) (g : Glob) : Glob := { g with head := r.bytes.map .byte ++ g.head }

/-- The glob with a star in front. Stars in a row are one star. -/
def star (g : Glob) : Glob :=
  match g.head, g.starred with
  | [], _ :: _ => g
  | head, starred => ⟨[], head :: starred⟩

/-- The glob of a text. -/
def readFrom : (fuel : Nat) → List Rune → Option Glob
  | _, [] => some ⟨[], []⟩
  | 0, _ :: _ => none
  | fuel + 1, r :: rest =>
    if r.code == 0x2A then (readFrom fuel rest).map star
    else if r.code == 0x3F then (readFrom fuel rest).map (cons .any)
    else if r.code == 0x5B then
      let negated := rest.head?.any fun r => r.code == 0x5E
      match ranges (rest.length + 1) [] (if negated then rest.tail else rest) with
      | none => none
      | some (members, rest) => (readFrom fuel rest).map (cons (.oneOf negated members))
    else if r.code == 0x5C then
      match rest with
      | [] => none
      | r :: rest => (readFrom fuel rest).map (consRune r)
    else (readFrom fuel rest).map (consRune r)

/-- The glob that a text spells; none where it spells none. -/
def read (s : Bytes) : Option Glob := readFrom s.length s.runes

/-! ## Matching -/

/-- The name after a piece at its front. -/
def eat (p : GlobPiece) : Bytes → Option Bytes
  | [] => none
  | b :: s =>
    match p with
    | .byte c => if b == c then some s else none
    | .any => if b == 0x2F then none else some ((b :: s).drop (Rune.read b s).bytes.length)
    | .oneOf negated members =>
      let r := Rune.read b s
      let found := members.any fun m => m.1 ≤ r.code && r.code ≤ m.2
      if found != negated then some ((b :: s).drop r.bytes.length) else none

/-- The name after a chunk at its front. -/
def eatAll : List GlobPiece → Bytes → Option Bytes
  | [], s => some s
  | p :: ps, s => (eat p s).bind (eatAll ps)

/-- The name after the leftmost place of a chunk. The last chunk has to end the name. A slash is not
skipped. -/
def seek (chunk : List GlobPiece) (last : Bool) : Bytes → Option Bytes
  | [] => eatAll chunk []
  | b :: s =>
    match (eatAll chunk (b :: s)).filter fun t => t.isEmpty || !last with
    | some t => some t
    | none => if b == 0x2F then none else seek chunk last s

/-- Whether chunks with stars before them cover a name. -/
def covers : List (List GlobPiece) → Bytes → Bool
  | [], s => s.isEmpty
  | [[]], s => !List.elem 0x2F s
  | chunk :: rest, s =>
    match seek chunk rest.isEmpty s with
    | some t => covers rest t
    | none => false

/-- Whether a name matches a glob. -/
def accepts (g : Glob) (name : Bytes) : Bool := (eatAll g.head name).any (covers g.starred)

/-- Whether a name matches the glob that a text spells. -/
def isMatch (pattern name : Bytes) : Bool := (read pattern).any fun g => g.accepts name

end Glob

end ClassOutline
