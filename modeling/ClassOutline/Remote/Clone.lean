import ClassOutline.Remote.Location
import ClassOutline.Scan.Head

/-!
# Clones

A clone is a copy of a remote repository at one commit: the one of a branch that was asked for, or
else the one where the remote's head points. Its working tree holds the files of that commit.
-/

namespace ClassOutline

/-- Why a repository cannot be cloned. -/
inductive CloneError where
  | notFound
  | empty
  | noHead
  | noBranch (name : Bytes)
deriving DecidableEq, Repr

/-- The error in words. -/
def CloneError.message (e : CloneError) : Bytes :=
  Bytes.ofString "failed to clone: " ++
    match e with
    | .notFound => Bytes.ofString "repository not found"
    | .empty => Bytes.ofString "remote repository is empty"
    | .noHead => Bytes.ofString "reference not found"
    | .noBranch name =>
      Bytes.ofString "couldn't find remote ref " ++ (Bytes.ofString "refs/heads/" ++ name).quoted

/-- A clone: the repository, and the commit that was checked out. -/
structure Clone where
  repository : Repository
  commit : Commit
  /-- The name of the branch, or the word for a head that is on none. -/
  branch : Bytes
deriving Repr

namespace Clone

/-- The clone of a branch. -/
def ofBranch (name : Bytes) (c : Commit) : Clone := ⟨⟨.branch name, [(name, c)]⟩, c, name⟩

/-- The clone of a remote repository at a branch, which may be left open. -/
def ofRemote (r : Repository) (branch : Bytes) : Except CloneError Clone :=
  if r.branches.isEmpty then .error .empty
  else if !branch.isEmpty then
    match r.branch? branch with
    | some c => .ok (ofBranch branch c)
    | none => .error (.noBranch branch)
  else
    match r.head with
    | .commit c => .ok ⟨⟨.commit c, []⟩, c, Bytes.ofString "HEAD"⟩
    | .branch name =>
      match r.branch? name with
      | some c => .ok (ofBranch name c)
      | none => .error .noHead

/-- The revision of a clone. -/
def revision (c : Clone) : Revision := ⟨c.commit.id, c.branch⟩

/-- A workspace with a clone in a directory. -/
def placeIn (c : Clone) (ws : Workspace) (dir : Bytes) : Workspace :=
  let gitDir := Path.join dir Scan.gitDirName
  let tree := ws.tree.makeDirs dir
  let tree := (tree.put (Path.parts (tree.resolve dir)) c.commit.top.toEntry).makeDirs gitDir
  ⟨tree, (tree.resolve gitDir, c.repository) :: ws.repositories⟩

end Clone

end ClassOutline
