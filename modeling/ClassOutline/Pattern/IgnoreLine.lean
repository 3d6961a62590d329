import ClassOutline.Pattern.RegexReader

/-!
# Lines of an ignore file

A line of an ignore file names paths to leave out: `*` stands for anything within one part of a
path, `**` for any number of parts, a slash in front ties the line to the top, and an exclamation
mark takes paths back that earlier lines left out. The last line that speaks of a path decides.

A line is turned into a regular expression, and characters with a meaning there keep it: brackets
and plus signs work as in an expression, and a line that spells no expression says nothing.
-/

namespace ClassOutline

/-- A line that says something: the paths it speaks of, and whether it takes them back. -/
structure IgnoreLine where
  paths : Regex
  negated : Bool
deriving DecidableEq, Repr

namespace IgnoreLine

/-- Whether a star with a point after it stands somewhere before the next newline. -/
def hasStarPoint : Bytes → Bool
  | 0x2A :: 0x2E :: _ => true
  | 10 :: _ => false
  | _ :: s => hasStarPoint s
  | [] => false

/-- Whether a line speaks of files by their ending inside a directory: a part, a slash, and later
a star with a point. -/
def namesEndings : Bytes → Bool
  | a :: b :: s =>
    (a != 0x2F && a != 0x2B && b == 0x2F && hasStarPoint s) || namesEndings (b :: s)
  | _ => false

/-- A text with another put in place of each occurrence of a third. -/
def sub (old new : String) (s : Bytes) : Bytes :=
  Bytes.replace (Bytes.ofString old) (Bytes.ofString new) s

/-- The text of a regular expression for a line without its signs in front. The stars of the
expression itself are written `#$~` until the stars of the line are gone. -/
def expression (line : Bytes) : Bytes :=
  let line := if namesEndings line && line.head? != some 0x2F then 0x2F :: line else line
  let line := sub "." "\\." line
  let line := if (Bytes.ofString "/**/").isPrefixOf line then line.drop 1 else line
  let line := sub "/**/" "(/|/.+/)" line
  let line := sub "**/" "(|.#$~/)" line
  let line := sub "/**" "(|/.#$~)" line
  let line := sub "\\*" "\\#$~" line
  let line := sub "*" "([^/]*)" line
  let line := sub "?" "\\?" line
  let line := sub "#$~" "*" line
  let ending := if line.getLast? == some 0x2F then "(|.*)$" else "(|/.*)$"
  let line := line ++ Bytes.ofString ending
  if line.head? == some 0x2F then Bytes.ofString "^(|/)" ++ line.drop 1
  else Bytes.ofString "^(|.*/)" ++ line

/-- A line without the spaces around it. -/
def trimSpaces (s : Bytes) : Bytes := Bytes.dropWhileEnd (· == 0x20) (s.dropWhile (· == 0x20))

/-- What a line says; nothing for a comment, a blank line and one that spells no expression. -/
def read (line : Bytes) : Option IgnoreLine :=
  let line := Bytes.dropWhileEnd (· == 13) line
  if line.head? == some 0x23 then none
  else
    let line := trimSpaces line
    if line.isEmpty then none
    else
      let negated := line.head? == some 0x21
      let line := if negated then line.drop 1 else line
      let line := if line.head? == some 0x23 || line.head? == some 0x21 then line.drop 1 else line
      (Regex.read (expression line)).map fun paths => ⟨paths, negated⟩

/-- Whether a line speaks of a path. -/
def speaksOf (l : IgnoreLine) (path : Bytes) : Bool := l.paths.occursIn (path.runes.map Rune.code)

/-- Whether a path is left out by some lines: the last one that speaks of it decides. -/
def ignores (lines : List IgnoreLine) (path : Bytes) : Bool :=
  lines.foldl (fun ignored l => if l.speaksOf path then !l.negated else ignored) false

end IgnoreLine

/-- The paths that lines of text leave out. -/
def ignoredBy (lines : List Bytes) : Bytes → Bool :=
  let lines := lines.filterMap IgnoreLine.read
  fun path => IgnoreLine.ignores lines path

end ClassOutline
