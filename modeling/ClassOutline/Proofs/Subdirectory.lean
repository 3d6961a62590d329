import ClassOutline.Proofs.Worktree

/-!
# Scans of a subdirectory

A scan of the last commit that starts below the top of a working tree shows the files below its
directory, by their paths from there. The rules of the ignore file at the top count in both scans,
but in different ways. From the top they are asked about a file and about every directory above it;
from the subdirectory they are asked about the file alone, by its full path, and the directories
between are only looked at for hidden names.

So the two scans differ in one point, and `Scan.list_subdirectory` says which: a file that the
subdirectory shows is missing from the whole if and only if the rules leave out a directory above
it. That happens to a file that a negated line takes back (`Scan.list_subdirectory_reincluded`).

A commit can hold objects that cannot be read; `Repository.Readable` says that it does not. Names
are assumed to be proper ones (`GitNode.Named`), since only then does a path tell its directories.
-/

namespace ClassOutline

open ClassOutline.Path

/-! ## Accepted files below a directory -/

namespace Filter

variable {names more : List Bytes} {n : Bytes}

/-- A file lies in no directory that is left out if none of them is hidden and none is ignored. -/
theorem all_enclosing_iff (f : Filter) (hnames : ∀ m ∈ names, IsName m) (hn : IsName n) :
    (enclosing (joined (names ++ [n]))).all (fun dir => !f.skipsDir dir) = true ↔
      (∀ m ∈ names, m.head? ≠ some 0x2E) ∧
        ∀ dir ∈ enclosing (joined (names ++ [n])), f.ignored dir = false := by
  rw [all_enclosing_joined f hnames hn, enclosing_joined hnames hn]
  simp only [List.forall_mem_map, mem_beginnings]
  -- a directory is hidden by its own name alone, so all of them together by the names on the way
  constructor
  · intro h
    refine ⟨?_, ?_⟩
    · intro m hm
      obtain ⟨up, down, rfl⟩ := List.append_of_mem hm
      exact (h up m ⟨down, by simp⟩).1
    · rintro dirs ⟨hne, habove⟩
      obtain ⟨up, m, rfl⟩ := List.eq_nil_or_concat' dirs |>.resolve_left hne
      exact (h up m habove).2
  · rintro ⟨hvisible, hignored⟩ up m habove
    exact ⟨hvisible m (habove.subset (by simp)), hignored _ ⟨by simp, habove⟩⟩

/-- The filter of a whole tree accepts a file below a directory that is not hidden if the rules
ignore neither the file nor a directory above it, and the filter without rules accepts the file by
its path below the directory. -/
theorem accepts_below_iff (f : Filter) {dirs : List Bytes} (hdirs : ∀ m ∈ dirs, IsName m)
    (hmore : ∀ m ∈ more, IsName m) (hne : more ≠ []) (hvisible : ∀ m ∈ dirs, m.head? ≠ some 0x2E)
    (size : Int) :
    f.accepts (lead dirs ++ joined more) size = true ↔
      (f.ignored (lead dirs ++ joined more) = false ∧
        Filter.accepts { f with ignored := fun _ => false } (joined more) size = true) ∧
      ∀ dir ∈ enclosing (lead dirs ++ joined more), f.ignored dir = false := by
  -- the last name is that of the file, and both paths have it last
  obtain ⟨init, last, rfl⟩ := List.eq_nil_or_concat' more |>.resolve_left hne
  have hinit : ∀ m ∈ init, IsName m := fun m hm => hmore m (List.mem_append_left _ hm)
  have hlast : IsName last := hmore last (by simp)
  have hall : ∀ m ∈ dirs ++ init, IsName m := List.forall_mem_append.mpr ⟨hdirs, hinit⟩
  have hwhole := all_enclosing_iff f hall hlast
  have hpart := all_enclosing_iff { f with ignored := fun _ => false } hinit hlast
  rw [List.forall_mem_append, List.append_assoc] at hwhole
  have hbase : base (joined (dirs ++ (init ++ [last]))) = last := by
    rw [← List.append_assoc]
    exact base_joined hlast
  rw [← joined_append dirs hne]
  simp only [accepts, Bool.and_eq_true, hwhole, hpart, hbase, base_joined hlast]
  simp only [Bool.not_eq_true', Bool.not_false]
  constructor
  · rintro ⟨⟨⟨hsize, hignored⟩, ⟨-, hhidden⟩, habove⟩, hmatch⟩
    exact ⟨⟨hignored, ⟨⟨hsize, trivial⟩, hhidden, fun _ _ => trivial⟩, hmatch⟩, habove⟩
  · rintro ⟨⟨hignored, ⟨⟨hsize, -⟩, hhidden, -⟩, hmatch⟩, habove⟩
    exact ⟨⟨⟨hsize, hignored⟩, ⟨hvisible, hhidden⟩, habove⟩, hmatch⟩

/-! ## Ignore files -/

/-- The text of the ignore file of a directory, if there is one. -/
def IgnoreFileIs (tree : Entry) (dir : Bytes) : Option Bytes → Prop
  | some text => tree.read (join dir ignoreFileName) = .ok text
  | none => ∃ e, tree.read (join dir ignoreFileName) = .error e ∧ e.cause = .missing

theorem ignoreFileIs_of_missing {tree : Entry} {dir : Bytes}
    (h : tree.lookup true (join dir ignoreFileName) = .error .missing) :
    IgnoreFileIs tree dir none := by
  refine ⟨⟨"open", join dir ignoreFileName, .missing⟩, ?_, rfl⟩
  rw [Entry.read, h]

/-- The paths that the text of an ignore file leaves out: none if there is no such file. -/
def ruledOut (text : Option Bytes) : Bytes → Bool := ignoredBy ((text.map lines).getD [])

theorem ruledOut_none : ruledOut none = fun _ => false := rfl

theorem ofDirectory_eq {tree : Entry} {dir : Bytes} {text : Option Bytes}
    (h : IgnoreFileIs tree dir text) (patterns : List Bytes) (maxBytes : Int) :
    ofDirectory tree dir patterns [] maxBytes = .ok ⟨patterns, ruledOut text, maxBytes⟩ := by
  cases text with
  | some text =>
    rw [ofDirectory, show tree.read (join dir ignoreFileName) = .ok text from h]
    rfl
  | none =>
    obtain ⟨e, hread, hcause⟩ := h
    rw [ofDirectory, hread]
    simp only [hcause, if_true]
    rfl

end Filter

/-! ## The paths of a commit -/

namespace GitNode

variable {n : GitNode} {entries : List (Bytes × GitNode)} {dirs : List Bytes}

/-- A node whose directories have entries with proper names only. -/
inductive Named : GitNode → Prop where
  | blob (content : Bytes) : Named (.blob content)
  | link (target : Bytes) : Named (.link target)
  | brokenBlob (fault : ObjectFault) : Named (.brokenBlob fault)
  | brokenTree (fault : ObjectFault) : Named (.brokenTree fault)
  | tree {entries : List (Bytes × GitNode)} (names : ∀ e ∈ entries, IsName e.1)
      (below : ∀ e ∈ entries, Named e.2) : Named (.tree entries)

/-- The files of a node are listed by the names that lead to them. -/
theorem Named.exists_names (h : n.Named) (hdirs : ∀ m ∈ dirs, IsName m)
    {x : Bytes × Except ObjectFault Bytes} (hx : x ∈ n.files (joined dirs)) :
    ∃ names, (∀ m ∈ names, IsName m) ∧ x.1 = joined (dirs ++ names) := by
  induction h generalizing dirs with
  | blob _ | link _ | brokenBlob _ =>
    rw [files, List.mem_singleton] at hx
    exact ⟨[], List.forall_mem_nil _, by simp [hx]⟩
  | brokenTree _ =>
    rw [files] at hx
    cases hx
  | @tree entries hnames _ ih =>
    rw [files, filesOf_eq_flatMap, List.mem_flatMap] at hx
    obtain ⟨e, he, hx⟩ := hx
    rw [below_joined hdirs] at hx
    obtain ⟨names, hvalid, hpath⟩ := ih e he (forall_isName_concat hdirs (hnames e he)) hx
    refine ⟨e.1 :: names, List.forall_mem_cons.mpr ⟨hnames e he, hvalid⟩, ?_⟩
    rw [hpath, List.append_assoc, List.singleton_append]

/-- Below a directory the path of a file goes on with names, and with one at least. -/
theorem Named.exists_names_below (h : (GitNode.tree entries).Named) (hdirs : ∀ m ∈ dirs, IsName m)
    {s : Bytes} {r : Except ObjectFault Bytes}
    (hx : (lead dirs ++ s, r) ∈ (GitNode.tree entries).files []) :
    ∃ names, names ≠ [] ∧ (∀ m ∈ names, IsName m) ∧ s = joined names := by
  have hall : ∃ all, all ≠ [] ∧ (∀ m ∈ all, IsName m) ∧ lead dirs ++ s = joined all := by
    -- the top is a directory, so at least one name leads to a file
    cases h with
    | tree hnames hbelow =>
      rw [files, filesOf_eq_flatMap, List.mem_flatMap] at hx
      obtain ⟨e, he, hx⟩ := hx
      have hname : ∀ m ∈ [e.1], IsName m := List.forall_mem_singleton.mpr (hnames e he)
      obtain ⟨names, hvalid, hpath⟩ := (hbelow e he).exists_names hname hx
      exact ⟨[e.1] ++ names, by simp, List.forall_mem_append.mpr ⟨hname, hvalid⟩, hpath⟩
  obtain ⟨all, hne, hvalid, hpath⟩ := hall
  exact eq_joined_of_lead_append hne hvalid hdirs hpath.symm

end GitNode

/-- A commit that can be read: itself, its top directory, and every file in it. -/
structure Commit.Readable (c : Commit) : Prop where
  fault : c.fault = none
  top : ∀ fault, c.top ≠ .brokenTree fault
  files : ∀ x ∈ c.top.files [], ∃ content, x.2 = .ok content

/-- A repository whose head leads to a commit that can be read. -/
def Repository.Readable (r : Repository) : Prop := ∃ c, r.headCommit? = some c ∧ c.Readable

namespace Scan

variable {f : Filter} {ws : Workspace} {repo : Repository} {root dir p : Bytes}

/-! ## The files of a commit below a directory -/

variable {l : List (Bytes × Except ObjectFault Bytes)}

theorem listedBelow?_eq_some_iff {ignored : Bytes → Bool} {x : Bytes × Except ObjectFault Bytes}
    {rel : Bytes} {read : Except Bytes Bytes} :
    listedBelow? f p ignored x = some ⟨rel, read⟩ ↔
      ∃ content, read = .ok content ∧ x = (p ++ rel, .ok content) ∧ ignored (p ++ rel) = false ∧
        f.accepts rel content.length = true := by
  constructor
  · intro h
    obtain ⟨path, fault | content⟩ := x
    · cases h
    · rw [listedBelow?, Option.ite_none_right_eq_some] at h
      obtain ⟨hlisted, hs⟩ := h
      simp only [Bool.and_eq_true, Bool.not_eq_true', List.isPrefixOf_iff_prefix] at hlisted
      obtain ⟨⟨⟨rel', rfl⟩, hignored⟩, haccepted⟩ := hlisted
      rw [List.drop_left] at haccepted hs
      obtain ⟨rfl, rfl⟩ := ScannedFile.mk.inj (Option.some.inj hs)
      exact ⟨content, rfl, rfl, hignored, haccepted⟩
  · rintro ⟨content, rfl, rfl, hignored, haccepted⟩
    simp [listedBelow?, hignored, haccepted]

/-- If a file of a commit cannot be read, no directory of it can be listed. -/
theorem commitFiles_of_fault (h : ∃ x ∈ l, ∀ content, x.2 ≠ .ok content) :
    ∃ fault, ∀ f p ignored, commitFiles f p ignored l = .error (.listing fault) := by
  induction l with
  | nil => simp at h
  | cons x l ih =>
    obtain ⟨path, fault | content⟩ := x
    · exact ⟨fault, fun _ _ _ => rfl⟩
    · have hrest : ∃ x ∈ l, ∀ content, x.2 ≠ .ok content := by
        obtain ⟨x, hx, hfault⟩ := h
        rcases List.mem_cons.mp hx with rfl | hx
        · exact absurd rfl (hfault content)
        · exact ⟨x, hx, hfault⟩
      obtain ⟨fault, herror⟩ := ih hrest
      exact ⟨fault, fun f p ignored => by rw [commitFiles, herror]⟩

variable {c : Commit} {ignored : Bytes → Bool}

/-! ## The last commit below a directory -/

/-- The rules of a commit that count for a directory: at the top those of the directory itself are
enough. -/
def rulesAbove (top : GitNode) (p : Bytes) : Except HeadError (Bytes → Bool) :=
  if p.isEmpty then .ok fun _ => false else committedIgnore top

/-- Where the commit and its top directory can be read, the listing is a matter of the files. -/
theorem headFiles_eq (f : Filter) (hopen : openRepository ws dir = .ok (repo, root))
    (hlead : worktreePrefix ws.tree dir root dir = .ok p) (hhead : repo.headCommit? = some c)
    (hfault : c.fault = none) (htop : ∀ fault, c.top ≠ .brokenTree fault)
    (hrules : rulesAbove c.top p = .ok ignored) :
    headFiles ws dir f = (commitFiles f p ignored (c.top.files [])).map fun files =>
      (sortFiles files, revision repo c) := by
  unfold headFiles
  simp only [hopen, hlead, hhead, hfault, bind, Except.bind, pure, Except.pure]
  unfold rulesAbove at hrules
  split
  · rename_i hempty
    rw [if_pos hempty] at hrules
    obtain rfl := Except.ok.inj hrules
    rfl
  · rename_i hne
    rw [if_neg hne] at hrules
    rw [hrules]
    rfl

/-- A commit that can be read is listed below any directory of the working tree. -/
theorem headFiles_of_readable (f : Filter) (hopen : openRepository ws dir = .ok (repo, root))
    (hlead : worktreePrefix ws.tree dir root dir = .ok p) (hhead : repo.headCommit? = some c)
    (hread : c.Readable) (hrules : rulesAbove c.top p = .ok ignored) :
    ∃ files, headFiles ws dir f = .ok (files, revision repo c) ∧ ∀ rel read, ⟨rel, read⟩ ∈ files ↔
      ∃ content, read = .ok content ∧ (p ++ rel, .ok content) ∈ c.top.files [] ∧
        ignored (p ++ rel) = false ∧ f.accepts rel content.length = true := by
  refine ⟨sortFiles ((c.top.files []).filterMap (listedBelow? f p ignored)), ?_, ?_⟩
  · rw [headFiles_eq f hopen hlead hhead hread.fault hread.top hrules,
      commitFiles_of_readable f p ignored hread.files]
    rfl
  · intro rel read
    simp only [mem_sortFiles, List.mem_filterMap, listedBelow?_eq_some_iff]
    constructor
    · rintro ⟨x, hx, content, hcontent, rfl, hlisted⟩
      exact ⟨content, hcontent, hx, hlisted⟩
    · rintro ⟨content, hcontent, hx, hlisted⟩
      exact ⟨_, hx, content, hcontent, rfl, hlisted⟩

/-- A commit that cannot be read fails in the same way from everywhere in the working tree. -/
theorem headFiles_of_unreadable (ws : Workspace) (root : Bytes) (hread : ¬ repo.Readable)
    (hrules : ∀ c, repo.headCommit? = some c → ∀ p, ∃ ignored, rulesAbove c.top p = .ok ignored) :
    ∃ e, ∀ dir p f, openRepository ws dir = .ok (repo, root) →
      worktreePrefix ws.tree dir root dir = .ok p → headFiles ws dir f = .error e := by
  cases hhead : repo.headCommit? with
  | none =>
    refine ⟨.noCommit, fun dir p f hopen hlead => ?_⟩
    simp [headFiles, hopen, hlead, hhead, bind, Except.bind]
  | some c =>
    cases hfault : c.fault with
    | some fault =>
      refine ⟨.commit fault, fun dir p f hopen hlead => ?_⟩
      simp [headFiles, hopen, hlead, hhead, hfault, bind, Except.bind]
    | none =>
      by_cases htop : ∃ fault, c.top = .brokenTree fault
      · obtain ⟨fault, htop⟩ := htop
        refine ⟨.tree fault, fun dir p f hopen hlead => ?_⟩
        simp [headFiles, hopen, hlead, hhead, hfault, htop, bind, Except.bind]
      · have htop' : ∀ fault, c.top ≠ .brokenTree fault := fun fault h => htop ⟨fault, h⟩
        -- what is left is a file that cannot be read
        have hfile : ∃ x ∈ c.top.files [], ∀ content, x.2 ≠ .ok content := by
          by_contra hnone
          push Not at hnone
          exact hread ⟨c, hhead, hfault, htop', hnone⟩
        obtain ⟨fault, hlisting⟩ := commitFiles_of_fault hfile
        refine ⟨.listing fault, fun dir p f hopen hlead => ?_⟩
        obtain ⟨ignored, hignored⟩ := hrules c hhead p
        rw [headFiles_eq f hopen hlead hhead hfault htop' hignored, hlisting]
        rfl

/-! ## Scans of a subdirectory -/

/-- The top of a commit whose ignore file has a given text, if it has one. A directory that cannot
be read has no text to compare. -/
inductive CommitTop (text : Option Bytes) : GitNode → Prop where
  | brokenTree (fault : ObjectFault) : CommitTop text (.brokenTree fault)
  | tree {entries : List (Bytes × GitNode)} (named : (GitNode.tree entries).Named)
      (ignoreFile : (GitNode.tree entries).get? [Filter.ignoreFileName] = text.map .blob) :
      CommitTop text (.tree entries)

/-- A directory of the working tree at `root`, where the paths of its files begin with `p`. No part
of `p` is hidden. There is one ignore file, at the top, and it is committed as it is. -/
structure Subdirectory (ws : Workspace) (repo : Repository) (root dir p : Bytes)
    (text : Option Bytes) : Prop where
  isAbsolute : isAbsolute dir = true
  opens : openRepository ws dir = .ok (repo, root)
  way : worktreePrefix ws.tree dir root dir = .ok p
  visible : ∀ n ∈ parts p, n.head? ≠ some 0x2E
  top : Filter.IgnoreFileIs ws.tree root text
  here : Filter.IgnoreFileIs ws.tree dir (if p = [] then text else none)
  committed : ∀ c, repo.headCommit? = some c → CommitTop text c.top

variable {text : Option Bytes} {top : GitNode}

/-- A real directory of a working tree, with no repository between, is a subdirectory in this
sense. -/
theorem Subdirectory.of_directory (above names : List Bytes) {entries : List (Bytes × Entry)}
    (hnames : ∀ n ∈ above ++ names, IsName n) (hvisible : ∀ n ∈ names, n.head? ≠ some 0x2E)
    (hdir : ws.tree.get? (above ++ names) = some (.dir entries))
    (hrepo : repositoryIn ws (absolute above) = some (.ok repo))
    (hnone : ∀ down, down ≠ [] → down <+: names →
      repositoryIn ws (absolute (above ++ down)) = none)
    (htop : Filter.IgnoreFileIs ws.tree (absolute above) text)
    (hhere : Filter.IgnoreFileIs ws.tree (absolute (above ++ names))
      (if lead names = [] then text else none))
    (hcommitted : ∀ c, repo.headCommit? = some c → CommitTop text c.top) :
    Subdirectory ws repo (absolute above) (absolute (above ++ names)) (lead names) text where
  isAbsolute := rfl
  opens := openRepository_below hnames hrepo hnone
  way := worktreePrefix_below _ hnames hdir
  visible := by rwa [parts_lead fun n hn => (hnames n (List.mem_append_right _ hn)).isPart]
  top := htop
  here := hhere
  committed := hcommitted

theorem CommitTop.rulesAbove_eq (h : CommitTop text top) (hread : ∀ fault, top ≠ .brokenTree fault)
    (p : Bytes) :
    rulesAbove top p = .ok (Filter.ruledOut (if p = [] then none else text)) := by
  unfold rulesAbove
  by_cases hp : p = []
  · simp only [hp, List.isEmpty_nil, if_true]
    rfl
  · simp only [List.isEmpty_iff, hp, if_false]
    cases h with
    | brokenTree fault => exact absurd rfl (hread fault)
    | tree _ hfile =>
      rw [committedIgnore, hfile]
      cases text <;> rfl

theorem CommitTop.exists_rulesAbove (h : CommitTop text top) (p : Bytes) :
    ∃ ignored, rulesAbove top p = .ok ignored := by
  by_cases hbroken : ∃ fault, top = .brokenTree fault
  · obtain ⟨fault, rfl⟩ := hbroken
    unfold rulesAbove
    split <;> exact ⟨_, rfl⟩
  · exact ⟨_, h.rulesAbove_eq (fun fault htop => hbroken ⟨fault, htop⟩) p⟩

theorem CommitTop.exists_names_below (h : CommitTop text top) {dirs : List Bytes}
    (hdirs : ∀ m ∈ dirs, IsName m) {s : Bytes} {r : Except ObjectFault Bytes}
    (hx : (lead dirs ++ s, r) ∈ top.files []) :
    ∃ names, names ≠ [] ∧ (∀ m ∈ names, IsName m) ∧ s = joined names := by
  cases h with
  | brokenTree fault =>
    rw [GitNode.files] at hx
    cases hx
  | tree hnamed _ => exact hnamed.exists_names_below hdirs hx

/-- The scan of the last commit below a directory, with nothing excluded beside the ignore files. -/
def headScan (o : ScanOptions) (dir : Bytes) : ScanOptions :=
  { o with root := dir, excluded := [], git := true }

theorem list_headScan (o : ScanOptions) (h : Filter.IgnoreFileIs ws.tree dir text) :
    list ws (headScan o dir) =
      ((headFiles ws dir ⟨o.patterns, Filter.ruledOut text, o.maxFileBytes⟩).map
        fun found => (found.1, some found.2)).mapError .head := by
  simp only [list, headScan, Filter.ofDirectory_eq h, Except.mapError, bind, Except.bind, if_true,
    pure, Except.pure]
  cases headFiles ws dir ⟨o.patterns, Filter.ruledOut text, o.maxFileBytes⟩ <;> rfl

/-- The filter of the directory and the committed rules together say what the filter at the top says
about a file, but for the directories above it. -/
theorem Subdirectory.accepts_iff (h : Subdirectory ws repo root dir p text) (patterns : List Bytes)
    (maxBytes size : Int) (htop : CommitTop text top) {rel : Bytes} {r : Except ObjectFault Bytes}
    (hx : (p ++ rel, r) ∈ top.files []) :
    Filter.accepts ⟨patterns, Filter.ruledOut text, maxBytes⟩ (p ++ rel) size = true ↔
      (Filter.ruledOut (if p = [] then none else text) (p ++ rel) = false ∧
        Filter.accepts ⟨patterns, Filter.ruledOut (if p = [] then text else none), maxBytes⟩ rel
          size = true) ∧
      ∀ above ∈ Filter.enclosing (p ++ rel), Filter.ruledOut text above = false := by
  obtain ⟨dirs, hdirs, rfl⟩ := exists_names_of_worktreePrefix h.isAbsolute h.way
  obtain ⟨more, hne, hmore, rfl⟩ := htop.exists_names_below hdirs hx
  have hvisible : ∀ n ∈ dirs, n.head? ≠ some 0x2E := by
    intro n hn
    exact h.visible n (by rwa [parts_lead fun m hm => (hdirs m hm).isPart])
  have hwhole := Filter.accepts_below_iff ⟨patterns, Filter.ruledOut text, maxBytes⟩ hdirs hmore hne
    hvisible size
  by_cases hempty : lead dirs = []
  · -- at the top itself the rules are in the filter, and the commit adds none
    rw [hempty, List.nil_append] at hwhole ⊢
    simp only [if_true, Filter.ruledOut_none, true_and]
    exact ⟨fun hacc => ⟨hacc, (hwhole.mp hacc).2⟩, fun hacc => hacc.1⟩
  · simp only [hempty, if_false]
    exact hwhole

/-- Where the last commit can be read, both listings are there. The one at the top shows the files
that the rules at the top accept, the one of the directory the files below it that its own filter
accepts and the committed rules do not leave out. -/
theorem Subdirectory.exists_listings (o : ScanOptions) (h : Subdirectory ws repo root dir p text)
    (hhead : repo.headCommit? = some c) (hread : c.Readable) :
    ∃ whole part, list ws (headScan o root) = .ok (whole, some (revision repo c)) ∧
      list ws (headScan o dir) = .ok (part, some (revision repo c)) ∧
      (∀ path read, ⟨path, read⟩ ∈ whole ↔ ∃ content, read = .ok content ∧
        (path, .ok content) ∈ c.top.files [] ∧
        Filter.accepts ⟨o.patterns, Filter.ruledOut text, o.maxFileBytes⟩ path content.length =
          true) ∧
      ∀ rel read, ⟨rel, read⟩ ∈ part ↔ ∃ content, read = .ok content ∧
        (p ++ rel, .ok content) ∈ c.top.files [] ∧
        Filter.ruledOut (if p = [] then none else text) (p ++ rel) = false ∧
        Filter.accepts ⟨o.patterns, Filter.ruledOut (if p = [] then text else none), o.maxFileBytes⟩
          rel content.length = true := by
  have hrules := (h.committed c hhead).rulesAbove_eq hread.top
  obtain ⟨whole, hwhole, hmemWhole⟩ := headFiles_of_readable
    ⟨o.patterns, Filter.ruledOut text, o.maxFileBytes⟩
    (openRepository_worktree h.isAbsolute h.opens) (worktreePrefix_self ws.tree root root) hhead
    hread (hrules [])
  obtain ⟨part, hpart, hmemPart⟩ := headFiles_of_readable
    ⟨o.patterns, Filter.ruledOut (if p = [] then text else none), o.maxFileBytes⟩ h.opens h.way
    hhead hread (hrules p)
  refine ⟨whole, part, ?_, ?_, ?_, hmemPart⟩
  · rw [list_headScan o h.top, hwhole]
    rfl
  · rw [list_headScan o h.here, hpart]
    rfl
  · simpa [Filter.ruledOut_none] using hmemWhole

/-! ## A sample -/

/-- The content of a class without members. -/
def sampleClass : Bytes := Bytes.ofString "class Keep \x7b\x7d\n"

/-- A commit of an ignore file and of a class in the directory `build`. -/
def sampleCommit (text : Bytes) : Commit :=
  ⟨[0x63], none, .tree [(Filter.ignoreFileName, .blob text),
    (Bytes.ofString "build", .tree [(Bytes.ofString "Keep.java", .blob sampleClass)])]⟩

def sampleRepository (text : Bytes) : Repository := ⟨.branch [0x6D], [([0x6D], sampleCommit text)]⟩

/-- The commit checked out in the directory `r`. -/
def sampleWorkspace (text : Bytes) : Workspace :=
  ⟨.dir [(Bytes.ofString "r", .dir [(gitDirName, .dir []), (Filter.ignoreFileName, .file text),
    (Bytes.ofString "build", .dir [(Bytes.ofString "Keep.java", .file sampleClass)])])],
    [(Bytes.ofString "/r/.git", sampleRepository text)]⟩

/-- Whatever the ignore file says, `build` is a subdirectory of the sample. -/
theorem sample_subdirectory (text : Bytes) :
    Subdirectory (sampleWorkspace text) (sampleRepository text) (absolute [Bytes.ofString "r"])
      (absolute [Bytes.ofString "r", Bytes.ofString "build"]) (lead [Bytes.ofString "build"])
      (some text) := by
  have hdir : (sampleWorkspace text).tree.get? [Bytes.ofString "r", Bytes.ofString "build"] =
      some (.dir [(Bytes.ofString "Keep.java", .file sampleClass)]) := by cbv
  refine Subdirectory.of_directory [Bytes.ofString "r"] [Bytes.ofString "build"]
    (by decide +kernel) (by decide +kernel) hdir ?repository ?between ?top ?here ?committed
  case repository => cbv
  case between =>
    intro down hne hdown
    obtain rfl : down = [Bytes.ofString "build"] := by
      obtain ⟨n, down, rfl⟩ := List.exists_cons_of_ne_nil hne
      simpa [List.cons_prefix_cons] using hdown
    cbv
  case top =>
    have hparts : parts (join (absolute [Bytes.ofString "r"]) Filter.ignoreFileName) =
        [Bytes.ofString "r", Filter.ignoreFileName] := by decide +kernel
    have hwalk : (sampleWorkspace text).tree.walk true Entry.linkLimit []
        [Bytes.ofString "r", Filter.ignoreFileName] =
        .ok ([Bytes.ofString "r", Filter.ignoreFileName], some (.file text)) := by cbv
    rw [Filter.IgnoreFileIs, Entry.read, Entry.lookup, Entry.locate, if_neg (by decide +kernel),
      hparts, hwalk]
  case here =>
    have hparts : parts (join (absolute [Bytes.ofString "r", Bytes.ofString "build"])
        Filter.ignoreFileName) =
        [Bytes.ofString "r", Bytes.ofString "build", Filter.ignoreFileName] := by decide +kernel
    have hwalk : (sampleWorkspace text).tree.walk true Entry.linkLimit []
        [Bytes.ofString "r", Bytes.ofString "build", Filter.ignoreFileName] =
        .ok ([Bytes.ofString "r", Bytes.ofString "build", Filter.ignoreFileName], none) := by cbv
    rw [if_neg (by decide +kernel)]
    apply Filter.ignoreFileIs_of_missing
    rw [List.singleton_append, Entry.lookup, Entry.locate, if_neg (by decide +kernel), hparts,
      hwalk]
  case committed =>
    intro c hc
    obtain rfl : sampleCommit text = c := Option.some.inj hc
    refine .tree (.tree (by simp only [List.forall_mem_cons]; decide +kernel) ?_) (by cbv)
    simp only [List.forall_mem_cons]
    refine ⟨.blob _, .tree (by decide +kernel) ?_, by simp⟩
    simp only [List.forall_mem_cons]
    exact ⟨.blob _, by simp⟩

theorem files_sampleCommit (text : Bytes) :
    (sampleCommit text).top.files [] = [(Filter.ignoreFileName, .ok text),
      (lead [Bytes.ofString "build"] ++ Bytes.ofString "Keep.java", .ok sampleClass)] := by
  cbv

theorem sampleCommit_readable (text : Bytes) : (sampleCommit text).Readable where
  fault := rfl
  top := by simp [sampleCommit]
  files := by simp [files_sampleCommit]

/-! ## The two scans -/

/-- **A subdirectory is scanned like its part of the whole, but for ignored directories above.**
Whatever the ignore file says and whatever the patterns and the size limit are, both scans fail in
the same way if the last commit cannot be read. Otherwise the scan of the whole shows a file below
the directory if and only if the scan of the directory shows it and the rules leave out no directory
above it. -/
theorem list_subdirectory (o : ScanOptions) (h : Subdirectory ws repo root dir p text) :
    (repo.Readable ∧ ∃ whole part rev, list ws (headScan o root) = .ok (whole, some rev) ∧
        list ws (headScan o dir) = .ok (part, some rev) ∧
        ∀ rel read, ⟨p ++ rel, read⟩ ∈ whole ↔ ⟨rel, read⟩ ∈ part ∧
          ∀ above ∈ Filter.enclosing (p ++ rel), Filter.ruledOut text above = false) ∨
      (¬ repo.Readable ∧
        ∃ e, list ws (headScan o root) = .error e ∧ list ws (headScan o dir) = .error e) := by
  by_cases hread : repo.Readable
  · refine .inl ⟨hread, ?_⟩
    obtain ⟨c, hhead, hc⟩ := hread
    obtain ⟨whole, part, hwhole, hpart, hmemWhole, hmemPart⟩ := h.exists_listings o hhead hc
    refine ⟨whole, part, revision repo c, hwhole, hpart, ?_⟩
    intro rel read
    rw [hmemWhole, hmemPart]
    have htop := h.committed c hhead
    constructor
    · rintro ⟨content, hcontent, hx, haccepted⟩
      obtain ⟨hlisted, habove⟩ := (h.accepts_iff _ _ _ htop hx).mp haccepted
      exact ⟨⟨content, hcontent, hx, hlisted⟩, habove⟩
    · rintro ⟨⟨content, hcontent, hx, hlisted⟩, habove⟩
      exact ⟨content, hcontent, hx, (h.accepts_iff _ _ _ htop hx).mpr ⟨hlisted, habove⟩⟩
  · obtain ⟨e, he⟩ := headFiles_of_unreadable ws root hread
      fun c hhead => (h.committed c hhead).exists_rulesAbove
    refine .inr ⟨hread, .head e, ?_, ?_⟩
    · rw [list_headScan o h.top, he root [] _ (openRepository_worktree h.isAbsolute h.opens)
        (worktreePrefix_self ws.tree root root)]
      rfl
    · rw [list_headScan o h.here, he dir p _ h.opens h.way]
      rfl

/-- All classes are left out and one is taken back: both scans show it. -/
theorem list_subdirectory_kept :
    let text := Bytes.ofString "*.java\n!Keep.java\n"
    let o : ScanOptions := ⟨[], [Bytes.ofString "*.java"], [], true, 4, 0, []⟩
    let root := absolute [Bytes.ofString "r"]
    let dir := absolute [Bytes.ofString "r", Bytes.ofString "build"]
    Subdirectory (sampleWorkspace text) (sampleRepository text) root dir
        (lead [Bytes.ofString "build"]) (some text) ∧
      ∃ whole part rev, list (sampleWorkspace text) (headScan o root) = .ok (whole, some rev) ∧
        list (sampleWorkspace text) (headScan o dir) = .ok (part, some rev) ∧
        ⟨lead [Bytes.ofString "build"] ++ Bytes.ofString "Keep.java", .ok sampleClass⟩ ∈ whole ∧
        ⟨Bytes.ofString "Keep.java", .ok sampleClass⟩ ∈ part := by
  intro text o root dir
  have hsub := sample_subdirectory text
  have hread := sampleCommit_readable text
  obtain ⟨-, part, -, hpart, -, hmem⟩ := hsub.exists_listings o rfl hread
  have hlisted : ⟨Bytes.ofString "Keep.java", .ok sampleClass⟩ ∈ part :=
    (hmem _ _).mpr ⟨sampleClass, rfl, by simp [files_sampleCommit], by decide +kernel,
      by decide +kernel⟩
  rcases list_subdirectory o hsub with ⟨-, whole, part', rev, hwhole, hpart', hiff⟩ | ⟨hnot, -⟩
  · obtain rfl : part' = part := by
      rw [hpart'] at hpart
      exact congrArg Prod.fst (Except.ok.inj hpart)
    refine ⟨hsub, whole, part', rev, hwhole, hpart', (hiff _ _).mpr ⟨hlisted, ?_⟩, hlisted⟩
    decide +kernel
  · exact absurd ⟨_, rfl, hread⟩ hnot

/-- A directory is left out and a class in it is taken back: the scan of the directory shows the
class, the scan of the whole does not. -/
theorem list_subdirectory_reincluded :
    let text := Bytes.ofString "build\n!Keep.java\n"
    let o : ScanOptions := ⟨[], [Bytes.ofString "*.java"], [], true, 4, 0, []⟩
    let root := absolute [Bytes.ofString "r"]
    let dir := absolute [Bytes.ofString "r", Bytes.ofString "build"]
    Subdirectory (sampleWorkspace text) (sampleRepository text) root dir
        (lead [Bytes.ofString "build"]) (some text) ∧
      ∃ whole part rev, list (sampleWorkspace text) (headScan o root) = .ok (whole, some rev) ∧
        list (sampleWorkspace text) (headScan o dir) = .ok (part, some rev) ∧
        ⟨Bytes.ofString "Keep.java", .ok sampleClass⟩ ∈ part ∧
        ∀ read, ⟨lead [Bytes.ofString "build"] ++ Bytes.ofString "Keep.java", read⟩ ∉ whole := by
  intro text o root dir
  have hsub := sample_subdirectory text
  obtain ⟨whole, part, hwhole, hpart, hmemWhole, hmemPart⟩ :=
    hsub.exists_listings o rfl (sampleCommit_readable text)
  refine ⟨hsub, whole, part, _, hwhole, hpart, ?_, ?_⟩
  · exact (hmemPart _ _).mpr ⟨sampleClass, rfl, by simp [files_sampleCommit], by decide +kernel,
      by decide +kernel⟩
  · intro read hlisted
    obtain ⟨content, -, -, haccepted⟩ := (hmemWhole _ _).mp hlisted
    -- the line that takes the class back does not speak of the directory
    have hskip : Filter.skipsDir ⟨o.patterns, Filter.ruledOut (some text), o.maxFileBytes⟩
        (joined [Bytes.ofString "build"]) = true := by decide +kernel
    rw [← joined_singleton (Bytes.ofString "Keep.java"), ← joined_append _ (by simp),
      Filter.accepts_eq_false_of_skipsDir hskip (by simp) (by simp) (by decide +kernel)
        (by decide +kernel)] at haccepted
    cases haccepted

end Scan

end ClassOutline
