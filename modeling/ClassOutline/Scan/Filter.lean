import ClassOutline.Files.Tree
import ClassOutline.Pattern.Glob
import ClassOutline.Pattern.IgnoreLine

/-!
# Which files are scanned

A filter looks at the path of a file below the scanned directory and at its size. A file takes part
if it is not too large, is not ignored, lies in no ignored or hidden directory, and its name
matches one of the patterns.

* `Filter.skipsDir`: a directory that is left out with everything below it.
* `Filter.accepts`: a file that takes part.
-/

namespace ClassOutline

/-- What decides about files. -/
structure Filter where
  /-- Patterns for names; one of them has to match. -/
  patterns : List Bytes
  /-- The paths that are left out. -/
  ignored : Bytes → Bool
  /-- The greatest size; no limit unless it is positive. -/
  maxBytes : Int

namespace Filter

/-- Whether a directory is left out: it is hidden or ignored. The scanned directory is not. -/
def skipsDir (f : Filter) (path : Bytes) : Bool :=
  if path == Path.dot || path.isEmpty then false
  else (Path.base path).head? == some 0x2E || f.ignored path

/-- The non-empty beginnings of a list. -/
def beginnings : List α → List (List α)
  | [] => []
  | a :: l => [a] :: (beginnings l).map (a :: ·)

/-- The directories above a path, from the top. Neither the root nor the scanned directory counts. -/
def enclosing (path : Bytes) : List Bytes :=
  let up := Path.uptoSlash path
  let lead : Bytes := if Path.isAbsolute up then [Path.slash] else []
  (beginnings (Path.cleanParts up)).map fun parts => lead ++ Bytes.join [Path.slash] parts

/-- Whether a file of a size takes part. -/
def accepts (f : Filter) (path : Bytes) (size : Int) : Bool :=
  !(0 < f.maxBytes && f.maxBytes < size) &&
    !f.ignored path &&
    (enclosing path).all (fun dir => !f.skipsDir dir) &&
    f.patterns.any fun pattern => Glob.isMatch pattern (Path.base path)

/-- The name of the ignore file. -/
def ignoreFileName : Bytes := Bytes.ofString ".gitignore"

/-- The lines of a text. -/
def lines (text : Bytes) : List Bytes := Bytes.split 10 text

/-- The filter of a scanned directory: the given lines come first, then those of its ignore file. -/
def ofDirectory (tree : Entry) (root : Bytes) (patterns excluded : List Bytes) (maxBytes : Int) :
    Except FileError Filter :=
  match tree.read (Path.join root ignoreFileName) with
  | .ok text => .ok ⟨patterns, ignoredBy (excluded ++ lines text), maxBytes⟩
  | .error e =>
    if e.cause = .missing then .ok ⟨patterns, ignoredBy excluded, maxBytes⟩ else .error e

end Filter

end ClassOutline
