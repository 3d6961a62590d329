import ClassOutline.Scan.Listing

/-!
# Repositories

A repository as far as scans read it: branches, the place where its head points, and the file tree
of a commit. An object of the store can be missing or damaged; what follows from that depends on
the object (`Scan.headFiles`).
-/

namespace ClassOutline

/-- Why an object cannot be read. -/
inductive ObjectFault where
  | missing
  | corrupt
deriving DecidableEq, Repr

/-- The fault in words. -/
def ObjectFault.text : ObjectFault → String
  | .missing => "object not found"
  | .corrupt => "zlib reading error: zlib: invalid header"

/-- A node of a committed file tree. -/
inductive GitNode where
  | blob (content : Bytes)
  /-- A link, whose content is its target. -/
  | link (target : Bytes)
  | tree (entries : List (Bytes × GitNode))
  /-- A file or link that cannot be read. -/
  | brokenBlob (fault : ObjectFault)
  /-- A directory that cannot be read. -/
  | brokenTree (fault : ObjectFault)
deriving Repr, BEq

namespace GitNode

/-- The name by which an entry is ordered: that of a directory has a slash at its end. -/
def orderName (e : Bytes × GitNode) : Bytes :=
  match e.2 with
  | .tree _ | .brokenTree _ => e.1 ++ [Path.slash]
  | _ => e.1

/-- Entries in the order in which a commit holds them. -/
def sortEntries (entries : List (Bytes × GitNode)) : List (Bytes × GitNode) :=
  entries.mergeSort fun a b => !Bytes.before (orderName b) (orderName a)

/-- Whether there is no file in a node. -/
def isHollow : GitNode → Bool
  | .tree [] => true
  | _ => false

mutual

/-- The committed form of a file tree. Special entries are not committed, nor are directories without
files. -/
def ofEntry : Entry → GitNode
  | .file content => .blob content
  | .link target => .link target
  | .dir entries => .tree (sortEntries (ofEntries entries))
  | .special => .tree []

/-- The committed form of the entries of a directory. -/
def ofEntries : List (Bytes × Entry) → List (Bytes × GitNode)
  | [] => []
  | (name, entry) :: rest =>
    let node := ofEntry entry
    if node.isHollow then ofEntries rest else (name, node) :: ofEntries rest

end

mutual

/-- The files of a working copy. What cannot be read is left out. -/
def toEntry : GitNode → Entry
  | .blob content => .file content
  | .link target => .link target
  | .tree entries => .dir (toEntries entries)
  | .brokenBlob _ | .brokenTree _ => Entry.empty

/-- The entries of a directory of a working copy. -/
def toEntries : List (Bytes × GitNode) → List (Bytes × Entry)
  | [] => []
  | (name, node) :: rest => Entry.withChild name node.toEntry (toEntries rest)

end

/-- The node at a path. -/
def get? : GitNode → List Bytes → Option GitNode
  | n, [] => some n
  | .tree entries, name :: path =>
    match entries.find? fun e => e.1 == name with
    | some (_, n) => n.get? path
    | none => none
  | _, _ :: _ => none

/-- Whether two nodes are stored as one object: objects are stored by content, and a link is stored
like a file with its target. -/
def sameObject : GitNode → GitNode → Bool
  | .blob a, .blob b | .blob a, .link b | .link a, .blob b | .link a, .link b => a == b
  | a, b => a == b

/-- The fault of the object of a node, in a list of broken objects. -/
def faultOf (broken : List (GitNode × ObjectFault)) (n : GitNode) : Option ObjectFault :=
  (broken.find? fun o => sameObject o.1 n).map Prod.snd

mutual

/-- The tree with some objects broken: every node that is stored as one of them. -/
def breakObjects (broken : List (GitNode × ObjectFault)) : GitNode → GitNode
  | .tree entries =>
    match faultOf broken (.tree entries) with
    | some fault => .brokenTree fault
    | none => .tree (breakEntries broken entries)
  | n =>
    match faultOf broken n with
    | some fault => .brokenBlob fault
    | none => n

/-- The entries of a directory with some objects broken. -/
def breakEntries (broken : List (GitNode × ObjectFault)) :
    List (Bytes × GitNode) → List (Bytes × GitNode)
  | [] => []
  | (name, node) :: rest => (name, breakObjects broken node) :: breakEntries broken rest

end

mutual

/-- The files of a node by path, each with its content or the reason why it cannot be read.
Directories that cannot be read are passed by. -/
def files (path : Bytes) : GitNode → List (Bytes × Except ObjectFault Bytes)
  | .blob content => [(path, .ok content)]
  | .link target => [(path, .ok target)]
  | .brokenBlob fault => [(path, .error fault)]
  | .tree entries => filesOf path entries
  | .brokenTree _ => []

/-- The files of the entries of a directory. -/
def filesOf (dir : Bytes) :
    List (Bytes × GitNode) → List (Bytes × Except ObjectFault Bytes)
  | [] => []
  | (name, node) :: rest => files (Scan.below dir name) node ++ filesOf dir rest

end

end GitNode

/-- A commit: its name, the reason why it cannot be read if there is one, and its file tree. -/
structure Commit where
  id : Bytes
  fault : Option ObjectFault := none
  top : GitNode
deriving Repr

/-- Where a head points: to a branch, which need not exist, or straight to a commit. -/
inductive Head where
  | branch (name : Bytes)
  | commit (c : Commit)
deriving Repr

/-- A repository. -/
structure Repository where
  head : Head
  branches : List (Bytes × Commit)
deriving Repr

namespace Repository

/-- The commit of a branch. -/
def branch? (r : Repository) (name : Bytes) : Option Commit :=
  (r.branches.find? fun b => b.1 == name).map Prod.snd

/-- The commit of the head. -/
def headCommit? (r : Repository) : Option Commit :=
  match r.head with
  | .branch name => r.branch? name
  | .commit c => some c

end Repository

/-- The commit that a scan read from, and the branch if the head points to one. -/
structure Revision where
  commit : Bytes
  branch : Bytes
deriving DecidableEq, Repr

/-- A file tree with the repositories in it, by the path of their directory of objects. -/
structure Workspace where
  tree : Entry
  repositories : List (Bytes × Repository) := []
deriving Repr

end ClassOutline
