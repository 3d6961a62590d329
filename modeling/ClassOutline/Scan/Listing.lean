import ClassOutline.Scan.Filter

/-!
# Files below a directory

The files of a scan are found by walking a directory. A directory that the filter skips is not
entered, links and special entries are passed by, and the files come in the byte order of their
paths.
-/

namespace ClassOutline

/-- A file of a scan: its path below the scanned directory, and its content or the reason why it
cannot be read. -/
structure ScannedFile where
  path : Bytes
  content : Except Bytes Bytes

namespace Scan

/-- Files in the byte order of their paths. -/
def sortFiles (files : List ScannedFile) : List ScannedFile :=
  files.mergeSort fun a b => !Bytes.before b.path a.path

/-- The path of an entry of a directory, where the empty path is the scanned directory. -/
def below (dir name : Bytes) : Bytes := if dir.isEmpty then name else dir ++ Path.slash :: name

mutual

/-- The accepted files at a path and below it. -/
def filesAt (f : Filter) (path : Bytes) : Entry → List ScannedFile
  | .file content => if f.accepts path content.length then [⟨path, .ok content⟩] else []
  | .link _ | .special => []
  | .dir entries => if f.skipsDir path then [] else filesIn f path entries

/-- The accepted files in the entries of a directory. -/
def filesIn (f : Filter) (dir : Bytes) : List (Bytes × Entry) → List ScannedFile
  | [] => []
  | (name, entry) :: rest => filesAt f (below dir name) entry ++ filesIn f dir rest

end

/-- The accepted files below a directory. A link in its place has none. -/
def filesBelow (f : Filter) : Entry → List ScannedFile
  | .dir entries => sortFiles (filesIn f [] entries)
  | _ => []

/-- The accepted files below the directory at a path. -/
def listDirectory (tree : Entry) (root : Bytes) (f : Filter) : Except FileError (List ScannedFile) :=
  (tree.lstat root).map (filesBelow f)

end Scan

end ClassOutline
