import ClassOutline.Scan.Repository
import ClassOutline.Text.Blank

/-!
# Files of the last commit

A scan can read the commit at the head of a repository in place of the working tree. The repository
is looked for in the scanned directory and then in the directories above. If the scanned directory
lies below the working tree, only files below it count, and the ignore file at the top of the commit
counts too.
-/

namespace ClassOutline

/-- Why the last commit cannot be scanned. -/
inductive HeadError where
  | noRepository
  /-- A file stands in place of the repository's directory and does not say where that is. -/
  | noPointer
  | outside (root worktree : Bytes)
  | noCommit
  | commit (fault : ObjectFault)
  | tree (fault : ObjectFault)
  | ignoreFile (fault : ObjectFault)
  | listing (fault : ObjectFault)
deriving DecidableEq, Repr

/-- The error in words. -/
def HeadError.message : HeadError → Bytes
  | .noRepository => Bytes.ofString "failed to open repo: repository does not exist"
  | .noPointer => Bytes.ofString "failed to open repo: .git file has no gitdir:  prefix"
  | .outside root worktree =>
    root ++ Bytes.ofString " is outside worktree " ++ worktree
  | .noCommit => Bytes.ofString "failed to get HEAD: reference not found"
  | .commit f => Bytes.ofString ("failed to load HEAD commit: " ++ f.text)
  | .tree f => Bytes.ofString ("failed to load HEAD tree: " ++ f.text)
  | .ignoreFile f => Bytes.ofString ("failed to load committed .gitignore: " ++ f.text)
  | .listing f => Bytes.ofString ("failed to list HEAD tree: " ++ f.text)

namespace Scan

/-! ## The place of a directory in a working tree -/

/-- A path seen from a working directory, with its links followed as far as that is possible. -/
def resolvePath (tree : Entry) (cwd path : Bytes) : Bytes := tree.resolve (Path.seenFrom cwd path)

/-- The way from a working tree to a directory in it, as the beginning of the paths of its files:
empty for the working tree itself, and otherwise ending in a slash. -/
def worktreePrefix (tree : Entry) (cwd worktree root : Bytes) : Except HeadError Bytes :=
  let way :=
    Path.relativeParts (Path.cleanParts (resolvePath tree cwd worktree))
      (Path.cleanParts (resolvePath tree cwd root))
  if way.isEmpty then .ok []
  else if way.head? == some Path.dotDot then .error (.outside root worktree)
  else .ok (Bytes.join [Path.slash] way ++ [Path.slash])

/-! ## Opening a repository -/

/-- The name of a repository's directory. -/
def gitDirName : Bytes := Bytes.ofString ".git"

/-- The repository whose objects lie at a path. -/
def repositoryAt (ws : Workspace) (path : Bytes) : Option Repository :=
  let place := ws.tree.resolve path
  (ws.repositories.find? fun r => r.1 == place).map Prod.snd

/-- The path that a file in place of the repository's directory names. -/
def pointer? (dir content : Bytes) : Option Bytes :=
  let lead := Bytes.ofString "gitdir: "
  if lead.isPrefixOf content then
    let line := Bytes.trim ((content.drop lead.length).takeWhile (· != 10))
    some (if Path.isAbsolute line then Path.clean line else Path.join dir line)
  else none

/-- The repository of a directory: none where the directory has no entry for one. -/
def repositoryIn (ws : Workspace) (dir : Bytes) : Option (Except HeadError Repository) :=
  let path := Path.join dir gitDirName
  let found (path : Bytes) : Except HeadError Repository :=
    match repositoryAt ws path with
    | some r => .ok r
    | none => .error .noRepository
  match ws.tree.lookup true path with
  | .ok (.file content) =>
    match pointer? dir content with
    | some path => some (found path)
    | none => some (.error .noPointer)
  | .ok _ => some (found path)
  | .error _ => none

/-- The repository of a directory, given by its parts, or of the closest directory above that has
one, and that directory. -/
def openFrom (ws : Workspace) : (depth : Nat) → (parts : List Bytes) →
    Except HeadError (Repository × Bytes)
  | depth, parts =>
    let dir := Path.absolute parts
    match repositoryIn ws dir with
    | some r => r.map fun r => (r, dir)
    | none =>
      match depth with
      | 0 => .error .noRepository
      | depth + 1 => openFrom ws depth parts.dropLast

/-- The repository that a path belongs to, and its working tree. -/
def openRepository (ws : Workspace) (path : Bytes) : Except HeadError (Repository × Bytes) :=
  let parts := Path.cleanParts path
  openFrom ws parts.length parts

/-! ## The files of a commit -/

/-- The paths that the ignore file at the top of a commit leaves out. A file that is missing leaves
out none. -/
def committedIgnore (top : GitNode) : Except HeadError (Bytes → Bool) :=
  match top.get? [Filter.ignoreFileName] with
  | some (.blob text) | some (.link text) => .ok (ignoredBy (Filter.lines text))
  | some (.brokenBlob .corrupt) | some (.brokenTree .corrupt) => .error (.ignoreFile .corrupt)
  | _ => .ok fun _ => false

/-- The accepted files of a commit below a directory of the working tree, which is given by the
beginning of the paths of its files. -/
def commitFiles (f : Filter) (lead : Bytes) (ignored : Bytes → Bool) :
    List (Bytes × Except ObjectFault Bytes) → Except HeadError (List ScannedFile)
  | [] => .ok []
  | (_, .error fault) :: _ => .error (.listing fault)
  | (path, .ok content) :: rest =>
    match commitFiles f lead ignored rest with
    | .error e => .error e
    | .ok files =>
      let below := path.drop lead.length
      if lead.isPrefixOf path && !ignored path && f.accepts below content.length then
        .ok (⟨below, .ok content⟩ :: files)
      else .ok files

/-- The name and branch of a revision. -/
def revision (r : Repository) (c : Commit) : Revision :=
  match r.head with
  | .branch name => ⟨c.id, name⟩
  | .commit _ => ⟨c.id, []⟩

/-- The accepted files of the last commit below a directory, and the revision. -/
def headFiles (ws : Workspace) (root : Bytes) (f : Filter) :
    Except HeadError (List ScannedFile × Revision) := do
  let (repo, worktree) ← openRepository ws root
  let lead ← worktreePrefix ws.tree root worktree root
  match repo.headCommit? with
  | none => .error .noCommit
  | some c =>
    match c.fault, c.top with
    | some fault, _ => .error (.commit fault)
    | none, .brokenTree fault => .error (.tree fault)
    | none, top =>
      let ignored ← if lead.isEmpty then pure fun _ => false else committedIgnore top
      let files ← commitFiles f lead ignored (top.files [])
      return (sortFiles files, revision repo c)

end Scan

end ClassOutline
