import ClassOutline.Text.Bytes

/-!
# Paths

A path is a text whose parts are separated by slashes. The functions here look at the text only and
not at any file: `clean` gives the shortest path with the same meaning, `base` and `dir` its last
part and what stands before, and `relative` the way from one clean absolute path to another.
-/

namespace ClassOutline.Path

/-- The part that means the directory itself. -/
def dot : Bytes := [0x2E]

/-- The part that means the directory above. -/
def dotDot : Bytes := [0x2E, 0x2E]

/-- The separator. -/
def slash : UInt8 := 0x2F

/-- Whether a path begins at the root. -/
def isAbsolute (s : Bytes) : Bool := s.head? == some slash

/-- The parts of a path that say something: neither empty nor a single dot. -/
def parts (s : Bytes) : List Bytes :=
  (Bytes.split slash s).filter fun p => !p.isEmpty && p != dot

/-- One more part on a stack of parts, last part first. Going up takes the last part away; at the
root it stays there, and where nothing is left of a relative path it is kept. -/
def push (absolute : Bool) (stack : List Bytes) (part : Bytes) : List Bytes :=
  if part == dotDot then
    match stack with
    | [] => if absolute then [] else [dotDot]
    | top :: rest => if top == dotDot then dotDot :: top :: rest else rest
  else part :: stack

/-- The parts of a path with every step up taken back. -/
def cleanParts (s : Bytes) : List Bytes := ((parts s).foldl (push (isAbsolute s)) []).reverse

/-- An absolute path from its parts. -/
def absolute (parts : List Bytes) : Bytes := slash :: Bytes.join [slash] parts

/-- The shortest path with the same meaning. -/
def clean (s : Bytes) : Bytes :=
  let parts := cleanParts s
  if isAbsolute s then absolute parts
  else if parts.isEmpty then dot
  else Bytes.join [slash] parts

/-- A path below another, cleaned. -/
def join (a b : Bytes) : Bytes :=
  if a.isEmpty && b.isEmpty then []
  else if a.isEmpty then clean b
  else if b.isEmpty then clean a
  else clean (a ++ slash :: b)

/-- The text after the last slash. -/
def afterSlash (s : Bytes) : Bytes := (s.reverse.takeWhile (· != slash)).reverse

/-- The text up to the last slash, which belongs to it. -/
def uptoSlash (s : Bytes) : Bytes := (s.reverse.dropWhile (· != slash)).reverse

/-- The last part of a path: a dot for the empty path, a slash for the root. -/
def base (s : Bytes) : Bytes :=
  if s.isEmpty then dot
  else
    let last := afterSlash (Bytes.dropWhileEnd (· == slash) s)
    if last.isEmpty then [slash] else last

/-- The path without its last part, cleaned. -/
def dir (s : Bytes) : Bytes := clean (uptoSlash s)

/-- A path seen from a working directory, cleaned. -/
def seenFrom (cwd s : Bytes) : Bytes := if isAbsolute s then clean s else join cwd s

/-- The parts to go from one list of parts to another: up from where they part, then down. -/
def relativeParts : List Bytes → List Bytes → List Bytes
  | b :: base, t :: target =>
    if b == t then relativeParts base target
    else (b :: base).map (fun _ => dotDot) ++ t :: target
  | base, target => base.map (fun _ => dotDot) ++ target

/-- The way from one absolute path to another. -/
def relative (base target : Bytes) : Bytes :=
  let way := relativeParts (cleanParts base) (cleanParts target)
  if way.isEmpty then dot else Bytes.join [slash] way

end ClassOutline.Path
