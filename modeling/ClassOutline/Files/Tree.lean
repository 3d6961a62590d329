import ClassOutline.Files.Path

/-!
# File trees

A file tree as a value: directories with named entries, files with their content, symbolic links
with the text of their target, and special entries, which have a name but cannot be opened. The
operations are those that the library needs of a file system: looking at a path with or without
following a link at its end, reading and writing a file.

A path is walked part by part from the root (`Entry.walk`). A link in the way is replaced by its
target, which counts against a limit, so a ring of links ends in an error.
-/

namespace ClassOutline

/-- An entry of a directory. The entries of a directory are kept by name in byte order. -/
inductive Entry where
  | file (content : Bytes)
  | link (target : Bytes)
  | dir (entries : List (Bytes × Entry))
  /-- Neither of these, such as a socket. -/
  | special
deriving Repr

/-- Why an operation on a path fails. -/
inductive FileFault where
  | missing
  | notDirectory
  | isDirectory
  | linkRing
  | nameTooLong
  | badName
  | taken
  | noDevice
deriving DecidableEq, Repr

/-- The fault in words. -/
def FileFault.text : FileFault → String
  | .missing => "no such file or directory"
  | .notDirectory => "not a directory"
  | .isDirectory => "is a directory"
  | .linkRing => "too many levels of symbolic links"
  | .nameTooLong => "file name too long"
  | .badName => "invalid argument"
  | .taken => "file exists"
  | .noDevice => "no such device or address"

/-- A failed operation: what was tried, on which path, and why it failed. -/
structure FileError where
  action : String
  path : Bytes
  cause : FileFault
deriving DecidableEq, Repr

/-- The error in words. -/
def FileError.message (e : FileError) : Bytes :=
  Bytes.ofString e.action ++ [0x20] ++ e.path ++ Bytes.ofString ": " ++ Bytes.ofString e.cause.text

namespace Entry

/-- The empty directory. -/
def empty : Entry := .dir []

/-- Whether an entry is a directory. -/
def isDir : Entry → Bool
  | .dir _ => true
  | _ => false

/-- The entry of a name. -/
def child? (name : Bytes) : List (Bytes × Entry) → Option Entry
  | [] => none
  | (n, e) :: entries => if n == name then some e else child? name entries

/-- The entries with one more, or another, entry of a name. -/
def withChild (name : Bytes) (entry : Entry) : List (Bytes × Entry) → List (Bytes × Entry)
  | [] => [(name, entry)]
  | (n, e) :: entries =>
    if n == name then (name, entry) :: entries
    else if Bytes.before name n then (name, entry) :: (n, e) :: entries
    else (n, e) :: withChild name entry entries

/-- The entries without a name. -/
def withoutChild (name : Bytes) (entries : List (Bytes × Entry)) : List (Bytes × Entry) :=
  entries.filter fun e => e.1 != name

/-- The entry at a list of names, none of which is a link. -/
def get? : Entry → List Bytes → Option Entry
  | e, [] => some e
  | .dir entries, name :: path =>
    match child? name entries with
    | some e => e.get? path
    | none => none
  | _, _ :: _ => none

/-- The tree with an entry put at a list of names. Directories on the way are made, and a file or
link on the way gives place to one. -/
def put : Entry → List Bytes → Entry → Entry
  | _, [], new => new
  | .dir entries, name :: path, new =>
    .dir (withChild name (put ((child? name entries).getD empty) path new) entries)
  | _, name :: path, new => .dir [(name, put empty path new)]

/-- The tree without the entry at a list of names. -/
def remove : Entry → List Bytes → Entry
  | .dir entries, [name] => .dir (withoutChild name entries)
  | .dir entries, name :: path =>
    match child? name entries with
    | some e => .dir (withChild name (remove e path) entries)
    | none => .dir entries
  | e, _ => e

/-! ## Walking a path -/

/-- The parts of a link's target. A slash at its end asks for a directory, as a dot would. -/
def targetParts (target : Bytes) : List Bytes :=
  let parts := (Bytes.split Path.slash target).filter fun p => !p.isEmpty
  if target.getLast? == some Path.slash then parts ++ [Path.dot] else parts

/-- How many links a path may lead through. -/
def linkLimit : Nat := 40

/-- Walks the parts of a path, starting in the directory `here`. The result is the place where the
walk ends, free of links, and the entry there, if there is one: only the last part may be missing.
A link in the last part is followed only if `follow` says so. -/
def walk (root : Entry) (follow : Bool) (links : Nat) (here : List Bytes) :
    List Bytes → Except FileFault (List Bytes × Option Entry)
  | [] => .ok (here, root.get? here)
  | part :: rest =>
    match root.get? here with
    | some (.dir entries) =>
      if part == Path.dot then walk root follow links here rest
      else if part == Path.dotDot then walk root follow links here.dropLast rest
      else if 255 < part.length then .error .nameTooLong
      else
        match child? part entries with
        | none => if rest.isEmpty then .ok (here ++ [part], none) else .error .missing
        | some (.link target) =>
          if rest.isEmpty && !follow then .ok (here ++ [part], some (.link target))
          else
            match links with
            | 0 => .error .linkRing
            | links + 1 =>
              walk root follow links (if Path.isAbsolute target then [] else here)
                (targetParts target ++ rest)
        | some _ => walk root follow links (here ++ [part]) rest
    | _ => .error .notDirectory
termination_by parts => (links, parts.length)

/-- Walks an absolute path from the root. -/
def locate (root : Entry) (follow : Bool) (links : Nat) (path : Bytes) :
    Except FileFault (List Bytes × Option Entry) :=
  if List.elem 0 path then .error .badName else walk root follow links [] (Path.parts path)

/-! ## Operations -/

/-- The entry at the end of a path. -/
def lookup (root : Entry) (follow : Bool) (path : Bytes) : Except FileFault Entry :=
  match root.locate follow linkLimit path with
  | .ok (_, some e) => .ok e
  | .ok (_, none) => .error .missing
  | .error f => .error f

/-- The entry of a path, with links followed. -/
def stat (root : Entry) (path : Bytes) : Except FileError Entry :=
  (root.lookup true path).mapError fun f => ⟨"stat", path, f⟩

/-- The entry of a path, which may be a link. -/
def lstat (root : Entry) (path : Bytes) : Except FileError Entry :=
  (root.lookup false path).mapError fun f => ⟨"lstat", path, f⟩

/-- Whether a path leads to something. -/
def exists? (root : Entry) (path : Bytes) : Bool := (root.stat path).isOk

/-- The content of a file. -/
def read (root : Entry) (path : Bytes) : Except FileError Bytes :=
  match root.lookup true path with
  | .ok (.file content) => .ok content
  | .ok .special => .error ⟨"open", path, .noDevice⟩
  | .ok _ => .error ⟨"read", path, .isDirectory⟩
  | .error f => .error ⟨"open", path, f⟩

/-- The tree with a file written. A link at the end of the path is followed, also to a place where
there is nothing yet. -/
def write (root : Entry) (path content : Bytes) : Except FileError Entry :=
  match root.locate true linkLimit path with
  | .ok (_, some (.dir _)) => .error ⟨"open", path, .isDirectory⟩
  | .ok (_, some .special) => .error ⟨"open", path, .noDevice⟩
  | .ok (place, _) => .ok (root.put place (.file content))
  | .error f => .error ⟨"open", path, f⟩

/-- The tree with the directories of a path made, as far as they are missing. -/
def makeDirs (root : Entry) (path : Bytes) : Entry :=
  let parts := Path.parts path
  (List.range parts.length).foldl
    (fun root n =>
      match root.walk true linkLimit [] (parts.take (n + 1)) with
      | .ok (place, none) => root.put place empty
      | _ => root)
    root

/-- The tree with a link made where there is nothing yet. -/
def makeLink (root : Entry) (path target : Bytes) : Except FileError Entry :=
  match root.locate false linkLimit path with
  | .ok (place, none) => .ok (root.put place (.link target))
  | .ok (_, some _) => .error ⟨"symlink", path, .taken⟩
  | .error f => .error ⟨"symlink", path, f⟩

/-- The tree without the entry of a path, if there is one. A link is taken away itself. -/
def delete (root : Entry) (path : Bytes) : Entry :=
  match root.locate false linkLimit path with
  | .ok (place, some _) => root.remove place
  | _ => root

/-- The limit for links when a whole path is freed of them. -/
def resolveLimit : Nat := 255

/-- The path with every link in it followed, or the path as it is where that fails. -/
def resolve (root : Entry) (path : Bytes) : Bytes :=
  match root.locate true resolveLimit path with
  | .ok (place, some _) => Path.absolute place
  | _ => path

end Entry

end ClassOutline
