import ClassOutline.Proofs.Files.Trees
import ClassOutline.Proofs.Listing
import ClassOutline.Scan.Report
import Mathlib.Data.List.Perm.Basic

/-!
# A clean checkout

A scan reads the working tree or the last commit. The two ways share the filter and little else: the
working tree is walked from the top and whole directories are passed by, the commit gives one flat
list of files and no directory is ever looked at. Where the working tree is a clean checkout they
find the same files in the same order, but for one: the repository's own entry. As a directory it is
hidden and never entered. A file that says where the repository is can stand in its place, though, and
only directories are left out for a hidden name. The reports agree exactly if the filter does not
accept that file (`Scan.run_disk_eq_run_head_iff`).

A commit is compared with its working copy `GitNode.toEntry`: the copy has the files that the commit
lists (`GitNode.Plain.files_perm`), and a path leads to the same file in both
(`GitNode.Plain.get?_toEntry`). The laws of directory listings then hold of commits.
-/

namespace ClassOutline

open ClassOutline.Path

namespace Entry

/-- An entry with a new name is only added. -/
theorem withChild_perm {name : Bytes} {entries : List (Bytes × Entry)} (e : Entry)
    (hnew : name ∉ entries.map Prod.fst) :
    (withChild name e entries).Perm ((name, e) :: entries) := by
  induction entries with
  | nil => exact .refl _
  | cons a rest ih =>
    obtain ⟨m, old⟩ := a
    rw [List.map_cons, List.mem_cons, not_or] at hnew
    have hm : m ≠ name := fun h => hnew.1 h.symm
    by_cases hbefore : Bytes.before name m
    · simp [withChild, hm, hbefore]
    · simp only [withChild, beq_iff_eq, hm, hbefore, if_false, Bool.false_eq_true]
      exact ((ih hnew.2).cons _).trans (.swap _ _ _)

theorem wellFormed_withChild {name : Bytes} {entries : List (Bytes × Entry)} {e : Entry}
    (h : (Entry.dir entries).WellFormed) (hname : IsName name)
    (hnew : name ∉ entries.map Prod.fst) (he : e.WellFormed) :
    (Entry.dir (withChild name e entries)).WellFormed := by
  have hperm := withChild_perm e hnew
  cases h with
  | dir hnodup hnames hbelow =>
    refine .dir ?_ ?_ ?_
    · rw [(hperm.map Prod.fst).nodup_iff]
      exact List.nodup_cons.mpr ⟨hnew, hnodup⟩
    · intro a ha
      rcases List.mem_cons.mp (hperm.mem_iff.mp ha) with rfl | ha
      · exact hname
      · exact hnames a ha
    · intro a ha
      rcases List.mem_cons.mp (hperm.mem_iff.mp ha) with rfl | ha
      · exact he
      · exact hbelow a ha

end Entry

namespace GitNode

/-! ## Commits of nothing but files -/

/-- A node that holds files and directories only, all of which can be read. The entries of a
directory have different and proper names. -/
inductive Plain : GitNode → Prop where
  | blob (content : Bytes) : Plain (.blob content)
  | tree {entries : List (Bytes × GitNode)} (nodup : (entries.map Prod.fst).Nodup)
      (names : ∀ e ∈ entries, IsName e.1) (below : ∀ e ∈ entries, Plain e.2) :
      Plain (.tree entries)

variable {n : GitNode} {entries : List (Bytes × GitNode)} {dirs names : List Bytes}
  {content : Bytes}

theorem toEntries_perm (hnodup : (entries.map Prod.fst).Nodup) :
    (toEntries entries).Perm (entries.map fun e => (e.1, e.2.toEntry)) := by
  induction entries with
  | nil => exact .refl _
  | cons e rest ih =>
    obtain ⟨name, node⟩ := e
    rw [List.map_cons, List.nodup_cons] at hnodup
    have hrest := ih hnodup.2
    rw [toEntries, List.map_cons]
    refine (Entry.withChild_perm _ ?_).trans (hrest.cons _)
    rw [(hrest.map Prod.fst).mem_iff, List.map_map]
    exact hnodup.1

theorem child?_toEntries (entries : List (Bytes × GitNode)) (name : Bytes) :
    Entry.child? name (toEntries entries) =
      (entries.find? fun e => e.1 == name).map fun e => e.2.toEntry := by
  induction entries with
  | nil => rfl
  | cons e rest ih =>
    obtain ⟨m, node⟩ := e
    rw [toEntries, Entry.child?_withChild, ih]
    by_cases hm : m = name <;> simp [hm]

theorem Plain.toEntry_wellFormed (h : n.Plain) : n.toEntry.WellFormed := by
  induction h with
  | blob content =>
    rw [toEntry]
    exact .file content
  | @tree entries hnodup hnames _ ih =>
    have hperm := toEntries_perm hnodup
    rw [toEntry]
    refine .dir ?_ ?_ ?_
    · rw [(hperm.map Prod.fst).nodup_iff, List.map_map]
      exact hnodup
    · intro e he
      obtain ⟨a, ha, rfl⟩ := List.mem_map.mp (hperm.mem_iff.mp he)
      exact hnames a ha
    · intro e he
      obtain ⟨a, ha, rfl⟩ := List.mem_map.mp (hperm.mem_iff.mp he)
      exact ih a ha

/-- Names lead to the same file in a commit and in its working copy. -/
theorem Plain.get?_toEntry (h : n.Plain) :
    n.toEntry.get? names = some (.file content) ↔ n.get? names = some (.blob content) := by
  induction h generalizing names with
  | blob c => cases names <;> simp [toEntry, Entry.get?, get?]
  | @tree entries _ _ _ ih =>
    cases names with
    | nil => simp [toEntry, Entry.get?, get?]
    | cons name more =>
      rw [toEntry, Entry.get?, child?_toEntries, get?]
      cases hfind : entries.find? fun e => e.1 == name with
      | none => simp
      | some e => exact ih e (List.mem_of_find?_eq_some hfind)

theorem filesOf_eq_flatMap (dir : Bytes) (entries : List (Bytes × GitNode)) :
    filesOf dir entries = entries.flatMap fun e => files (Scan.below dir e.1) e.2 := by
  induction entries with
  | nil => rfl
  | cons e rest ih =>
    rw [filesOf, ih]
    rfl

/-- A file of a commit, as the commit lists it. -/
def listed (dirs : List Bytes) (x : List Bytes × Bytes) : Bytes × Except ObjectFault Bytes :=
  (joined (dirs ++ x.1), .ok x.2)

/-- A commit lists the files of its working copy, although in another order. -/
theorem Plain.files_perm (h : n.Plain) (hdirs : ∀ m ∈ dirs, IsName m) :
    (n.files (joined dirs)).Perm (n.toEntry.regular.map (listed dirs)) := by
  induction h generalizing dirs with
  | blob c => simp [files, toEntry, Entry.regular, listed]
  | @tree entries hnodup hnames _ ih =>
    rw [files, toEntry, Entry.regular, filesOf_eq_flatMap, Entry.regularIn_eq_flatMap,
      List.map_flatMap]
    -- the working copy has its entries in byte order, the commit in its own
    have hcopy := (toEntries_perm hnodup).flatMap_right fun e =>
      (e.2.regular.map fun x => (e.1 :: x.1, x.2)).map (listed dirs)
    refine .trans ?_ hcopy.symm
    rw [List.flatMap_map]
    apply List.Perm.flatMap_left
    intro e he
    -- one name further down the files are listed in the same way
    have hbelow := ih e he (forall_isName_concat hdirs (hnames e he))
    rw [below_joined hdirs]
    have hlisted : listed dirs ∘ (fun x => (e.1 :: x.1, x.2)) = listed (dirs ++ [e.1]) := by
      funext x
      simp [listed]
    rw [List.map_map, hlisted]
    exact hbelow

end GitNode

namespace Scan

/-! ## The last commit -/

variable {f : Filter} {ws : Workspace} {root : Bytes}

/-- What a listing below a directory shows of a file of a commit: nothing unless the file is below
the directory and accepted. -/
def listedBelow? (f : Filter) (p : Bytes) (ignored : Bytes → Bool) :
    Bytes × Except ObjectFault Bytes → Option ScannedFile
  | (path, .ok content) =>
    if p.isPrefixOf path && !ignored path && f.accepts (path.drop p.length) content.length then
      some ⟨path.drop p.length, .ok content⟩
    else none
  | (_, .error _) => none

/-- If all files of a commit can be read, those below a directory are picked one by one. -/
theorem commitFiles_of_readable {l : List (Bytes × Except ObjectFault Bytes)} (f : Filter)
    (p : Bytes) (ignored : Bytes → Bool) (hread : ∀ x ∈ l, ∃ content, x.2 = .ok content) :
    commitFiles f p ignored l = .ok (l.filterMap (listedBelow? f p ignored)) := by
  induction l with
  | nil => rfl
  | cons x l ih =>
    obtain ⟨path, read⟩ := x
    obtain ⟨content, hcontent⟩ := hread _ List.mem_cons_self
    obtain rfl : read = .ok content := hcontent
    rw [commitFiles, ih fun y hy => hread y (List.mem_cons_of_mem _ hy), List.filterMap_cons,
      listedBelow?]
    dsimp only
    split <;> rfl

/-- A listed file of a commit, if it is accepted. -/
def accepted? (f : Filter) (x : Bytes × Except ObjectFault Bytes) : Option ScannedFile :=
  match x.2 with
  | .ok content => if f.accepts x.1 content.length then some ⟨x.1, .ok content⟩ else none
  | .error _ => none

/-- From the top of a commit that can be read, the accepted files are picked one by one. -/
theorem commitFiles_top {l : List (Bytes × Except ObjectFault Bytes)}
    (hread : ∀ x ∈ l, ∃ content, x.2 = .ok content) :
    commitFiles f [] (fun _ => false) l = .ok (l.filterMap (accepted? f)) := by
  have htop : listedBelow? f [] (fun _ => false) = accepted? f := by
    funext ⟨path, read⟩
    cases read <;> simp [listedBelow?, accepted?]
  rw [commitFiles_of_readable f [] _ hread, htop]

theorem filterMap_accepted?_listed (f : Filter) (files : List (List Bytes × Bytes)) :
    (files.map (GitNode.listed [])).filterMap (accepted? f) = acceptedFiles f [] files := by
  induction files with
  | nil => rfl
  | cons x rest ih =>
    rw [acceptedFiles] at ih ⊢
    by_cases hacc : f.accepts (joined x.1) x.2.length <;>
      simp [accepted?, GitNode.listed, shown, hacc, ih]

/-- The accepted files of a commit are those of its working copy. -/
theorem commitFiles_plain {n : GitNode} (h : n.Plain) :
    ∃ files, commitFiles f [] (fun _ => false) (n.files []) = .ok files ∧
      files.Perm (acceptedFiles f [] n.toEntry.regular) := by
  have hperm : (n.files []).Perm (n.toEntry.regular.map (GitNode.listed [])) :=
    h.files_perm (List.forall_mem_nil _)
  refine ⟨_, commitFiles_top ?_, ?_⟩
  · intro x hx
    obtain ⟨y, -, rfl⟩ := List.mem_map.mp (hperm.mem_iff.mp hx)
    exact ⟨y.2, rfl⟩
  · rw [← filterMap_accepted?_listed]
    exact hperm.filterMap _

theorem relativeParts_self (parts : List Bytes) : relativeParts parts parts = [] := by
  induction parts with
  | nil => rfl
  | cons p parts ih => simpa [relativeParts] using ih

theorem worktreePrefix_self (tree : Entry) (cwd root : Bytes) :
    worktreePrefix tree cwd root root = .ok [] := by
  simp [worktreePrefix, relativeParts_self]

/-- A directory that has a repository is a working tree of its own. -/
theorem openRepository_here {repo : Repository} (hroot : absolute (cleanParts root) = root)
    (hrepo : repositoryIn ws root = some (.ok repo)) :
    openRepository ws root = .ok (repo, root) := by
  unfold openRepository
  rw [openFrom.eq_def]
  simp only [hroot, hrepo]
  rfl

/-! ## Clean checkouts -/

/-- Whether names lead to the repository's own entry or into it. -/
def InGitDir (names : List Bytes) : Prop := ∃ more, names = gitDirName :: more

/-- The directory at a path is a clean checkout: it has a repository, whose last commit holds nothing
but files, and the files of the commit are the files of the working tree apart from the repository's
own entry and what lies below it. -/
structure CleanCheckout (ws : Workspace) (root : Bytes) (entries : List (Bytes × Entry))
    (repo : Repository) (c : Commit) : Prop where
  isAbsolute : isAbsolute root = true
  clean : clean root = root
  directory : ws.tree.lstat root = .ok (.dir entries)
  wellFormed : (Entry.dir entries).WellFormed
  repository : repositoryIn ws root = some (.ok repo)
  head : repo.headCommit? = some c
  readable : c.fault = none
  plain : c.top.Plain
  same : ∀ names content, c.top.get? names = some (.blob content) ↔
    ¬ InGitDir names ∧ (Entry.dir entries).get? names = some (.file content)

/-- A commit checked out beside its repository has the files of the commit, whatever the repository's
own entry is. -/
theorem same_of_checkedOut {nodes : List (Bytes × GitNode)} (h : (GitNode.tree nodes).Plain)
    (hgit : gitDirName ∉ nodes.map Prod.fst) (git : Entry) (names : List Bytes) (content : Bytes) :
    (GitNode.tree nodes).get? names = some (.blob content) ↔ ¬ InGitDir names ∧
      (Entry.dir (Entry.withChild gitDirName git (GitNode.toEntries nodes))).get? names =
        some (.file content) := by
  rw [← h.get?_toEntry, GitNode.toEntry]
  cases names with
  | nil => simp [Entry.get?]
  | cons n more =>
    rw [Entry.get?, Entry.get?, Entry.child?_withChild]
    by_cases hn : gitDirName = n
    · -- the commit has nothing of this name
      subst hn
      have hin : InGitDir (gitDirName :: more) := ⟨more, rfl⟩
      have hnone : nodes.find? (fun e => e.1 == gitDirName) = none := by
        rw [List.find?_eq_none]
        intro e he heq
        exact hgit (List.mem_map.mpr ⟨e, he, beq_iff_eq.mp heq⟩)
      simp [hin, GitNode.child?_toEntries, hnone]
    · have hout : ¬ InGitDir (n :: more) := by
        rintro ⟨_, heq⟩
        exact hn (List.cons.inj heq).1.symm
      simp [hn, hout]

/-- The names of a file at the path of the repository's own entry are those of that entry. -/
theorem joined_eq_gitDirName_iff {names : List Bytes} (hnames : ∀ n ∈ names, IsName n) :
    joined names = gitDirName ↔ names = [gitDirName] := by
  have hgit : ∀ n ∈ [gitDirName], IsName n :=
    List.forall_mem_singleton.mpr (by decide +kernel)
  refine ⟨fun h => joined_injective hnames hgit h, ?_⟩
  rintro rfl
  rfl

/-- Nothing in a hidden directory is accepted, and a repository's directory is hidden. -/
theorem accepts_of_below_gitDir {more : List Bytes} (hnames : ∀ n ∈ gitDirName :: more, IsName n)
    (hmore : more ≠ []) (size : Int) : f.accepts (joined (gitDirName :: more)) size = false := by
  obtain ⟨dirs, last, rfl⟩ := List.eq_nil_or_concat' more |>.resolve_left hmore
  have hhidden : f.skipsDir (joined [gitDirName]) = true := by
    have hgit : IsName gitDirName := by decide +kernel
    have hdir : f.skipsDir (joined ([] ++ [gitDirName])) =
        (gitDirName.head? == some 0x2E || f.ignored (joined ([] ++ [gitDirName]))) :=
      Filter.skipsDir_joined f (by simpa using hgit)
    have hdot : (gitDirName.head? == some 0x2E) = true := by decide +kernel
    rw [List.nil_append, hdot, Bool.true_or] at hdir
    exact hdir
  rw [← List.cons_append] at hnames ⊢
  refine Filter.accepts_eq_false_of_skipsDir hhidden (by simp) (by simp) ?_ ?_
  · exact fun m hm => hnames m (List.mem_append_left _ hm)
  · exact hnames last (by simp)

variable {entries : List (Bytes × Entry)} {repo : Repository} {c : Commit}

/-- A commit of files that is checked out beside its repository is a clean checkout. -/
theorem CleanCheckout.of_checkedOut {nodes : List (Bytes × GitNode)} {git : Entry}
    (hentries : entries = Entry.withChild gitDirName git (GitNode.toEntries nodes))
    (habsolute : Path.isAbsolute root = true) (hclean : Path.clean root = root)
    (hdir : ws.tree.lstat root = .ok (.dir entries))
    (hrepo : repositoryIn ws root = some (.ok repo)) (hhead : repo.headCommit? = some c)
    (hfault : c.fault = none) (htop : c.top = .tree nodes) (hplain : (GitNode.tree nodes).Plain)
    (hnew : gitDirName ∉ nodes.map Prod.fst) (hgit : git.WellFormed) :
    CleanCheckout ws root entries repo c := by
  have hcopy := hplain.toEntry_wellFormed
  rw [GitNode.toEntry] at hcopy
  have hfree : gitDirName ∉ (GitNode.toEntries nodes).map Prod.fst := by
    cases hplain with
    | tree hnodup _ _ =>
      rw [((GitNode.toEntries_perm hnodup).map Prod.fst).mem_iff, List.map_map]
      exact hnew
  subst hentries
  exact
    { isAbsolute := habsolute
      clean := hclean
      directory := hdir
      wellFormed := Entry.wellFormed_withChild hcopy (by decide +kernel) hfree hgit
      repository := hrepo
      head := hhead
      readable := hfault
      plain := htop ▸ hplain
      same := htop ▸ same_of_checkedOut hplain hnew git }

/-- The accepted files of the commit are those of a clean checkout, apart from the repository's own
entry. -/
theorem CleanCheckout.mem_acceptedFiles_iff (h : CleanCheckout ws root entries repo c)
    (s : ScannedFile) :
    s ∈ acceptedFiles f [] c.top.toEntry.regular ↔
      s ∈ acceptedFiles f [] (Entry.dir entries).regular ∧ s.path ≠ gitDirName := by
  have hcopy := h.plain.toEntry_wellFormed
  simp only [mem_acceptedFiles, h.wellFormed.mem_regular, hcopy.mem_regular, h.plain.get?_toEntry,
    h.same]
  constructor
  · rintro ⟨names, content, ⟨hout, hfile⟩, rfl, hacc⟩
    refine ⟨⟨names, content, hfile, rfl, hacc⟩, fun hpath => ?_⟩
    exact hout ⟨[], (joined_eq_gitDirName_iff (h.wellFormed.names_of_get? hfile)).mp hpath⟩
  · rintro ⟨⟨names, content, hfile, rfl, hacc⟩, hpath⟩
    refine ⟨names, content, ⟨?_, hfile⟩, rfl, hacc⟩
    -- what lies below the repository's entry is not accepted, and the path is not that entry's own
    rintro ⟨more, rfl⟩
    have hmore : more ≠ [] := by
      rintro rfl
      exact hpath rfl
    rw [accepts_of_below_gitDir (h.wellFormed.names_of_get? hfile) hmore] at hacc
    cases hacc

/-- The last commit of a clean checkout lists what its directory lists, without the repository's own
entry. -/
theorem CleanCheckout.headFiles_eq (h : CleanCheckout ws root entries repo c) (f : Filter) :
    headFiles ws root f =
      .ok ((filesBelow f (.dir entries)).filter (·.path != gitDirName), revision repo c) := by
  have hplace : absolute (cleanParts root) = root := by
    have hclean := h.clean
    rwa [Path.clean, if_pos h.isAbsolute] at hclean
  obtain ⟨files, hcommit, hperm⟩ := commitFiles_plain (f := f) h.plain
  -- two lists in the strict order of paths with the same files
  have hsame : sortFiles files = (filesBelow f (.dir entries)).filter (·.path != gitDirName) := by
    rw [filesBelow_eq h.wellFormed]
    have hnodup : (files.map ScannedFile.path).Nodup := by
      rw [(hperm.map _).nodup_iff]
      exact acceptedFiles_nodup h.plain.toEntry_wellFormed
    have hsorted := (sortFiles_pairwise (acceptedFiles_nodup (f := f) h.wellFormed)).filter
      (·.path != gitDirName)
    apply (sortFiles_pairwise hnodup).eq_of_mem_iff hsorted
    intro s
    rw [mem_sortFiles, hperm.mem_iff, h.mem_acceptedFiles_iff, List.mem_filter, mem_sortFiles,
      bne_iff_ne]
  -- a commit of files and directories is not one whose top cannot be read
  have htop : ∀ fault, c.top ≠ .brokenTree fault := by
    intro fault heq
    have hplain := h.plain
    rw [heq] at hplain
    cases hplain
  unfold headFiles
  simp only [openRepository_here hplace h.repository, worktreePrefix_self, h.head, h.readable, bind,
    Except.bind, List.isEmpty_nil, if_true, pure, Except.pure, hcommit, hsame]

/-- Whether a walk of a directory lists the entry of its repository: a file stands there, which says
where the repository is, and the filter accepts it. -/
def ListsPointer (f : Filter) (entries : List (Bytes × Entry)) : Prop :=
  ∃ content, Entry.child? gitDirName entries = some (.file content) ∧
    f.accepts gitDirName content.length = true

theorem filter_filesBelow_eq_self_iff (h : (Entry.dir entries).WellFormed) :
    (filesBelow f (.dir entries)).filter (·.path != gitDirName) = filesBelow f (.dir entries) ↔
      ¬ ListsPointer f entries := by
  have hget : ∀ content, (Entry.dir entries).get? [gitDirName] = some (.file content) ↔
      Entry.child? gitDirName entries = some (.file content) := by
    intro content
    rw [Entry.get?]
    cases Entry.child? gitDirName entries with
    | none => simp
    | some e => simp [Entry.get?]
  simp only [List.filter_eq_self, bne_iff_ne, filesBelow_eq h, mem_sortFiles, mem_acceptedFiles,
    h.mem_regular]
  constructor
  · -- what the walk lists under this path is the file that the filter accepts
    rintro hall ⟨content, hchild, hacc⟩
    exact hall _ ⟨[gitDirName], content, (hget content).mpr hchild, rfl, hacc⟩ rfl
  · rintro hno _ ⟨names, content, hfile, rfl, hacc⟩ hpath
    obtain rfl := (joined_eq_gitDirName_iff (h.names_of_get? hfile)).mp hpath
    exact hno ⟨content, (hget content).mp hfile, hacc⟩

/-! ## Scans -/

/-- What a report says about files. It leaves out the revision, which only a scan of a commit has. -/
def findings (r : Except ScanError Report) : Except ScanError (List FileResult × Summary) :=
  r.map fun report => (report.files, report.summary)

theorem findings_reportOn (registry : Registry) (o o' : ScanOptions) (files : List ScannedFile)
    (rev rev' : Option Revision) (interrupted : Bool) (hlanguage : o.language = o'.language) :
    findings (reportOn registry o files rev interrupted) =
      findings (reportOn registry o' files rev' interrupted) := by
  unfold reportOn
  split
  · rfl
  · rw [hlanguage]
    rfl

theorem path_analyzeFile (registry : Registry) (hint : Bytes) (s : ScannedFile) :
    (analyzeFile registry hint s).path = s.path := by
  unfold analyzeFile
  split
  · rfl
  · split <;> rfl

theorem map_path_analyzeFile (registry : Registry) (hint : Bytes) (files : List ScannedFile) :
    (files.map (analyzeFile registry hint)).map FileResult.path = files.map ScannedFile.path := by
  rw [List.map_map]
  exact List.map_congr_left fun s _ => path_analyzeFile registry hint s

theorem map_analyzeFile_filter (registry : Registry) (hint : Bytes) (p : Bytes → Bool)
    (files : List ScannedFile) :
    (files.filter fun s => p s.path).map (analyzeFile registry hint) =
      (files.map (analyzeFile registry hint)).filter fun r => p r.path := by
  rw [List.filter_map]
  simp only [Function.comp_def, path_analyzeFile]

/-- The files of the two scans of a clean checkout. -/
theorem CleanCheckout.list_eq {o : ScanOptions} (h : CleanCheckout ws o.root entries repo c)
    (hfilter : Filter.ofDirectory ws.tree o.root o.patterns o.excluded o.maxFileBytes = .ok f) :
    list ws { o with git := false } = .ok (filesBelow f (.dir entries), none) ∧
      list ws { o with git := true } =
        .ok ((filesBelow f (.dir entries)).filter (·.path != gitDirName),
          some (revision repo c)) := by
  constructor
  · simp [list, hfilter, listDirectory, h.directory, Except.mapError, Except.map, bind, Except.bind,
      pure, Except.pure]
  · simp [list, hfilter, h.headFiles_eq, Except.mapError, bind, Except.bind, pure, Except.pure]

/-- **A clean checkout reads the same from disk and from its last commit**, but for the repository's
own entry. Whatever the patterns, the excluded paths, the ignore file, the size limit, the hint and
the number of workers are, both scans end in reports, unless the ignore file is there and cannot be
read, and the one on the commit says of the files what the one on the directory says, leaving out the
entry of the repository. The directory lists that entry exactly if it is a file and the filter accepts
it. If it does not, both scans end in the same way, also where they are interrupted. -/
theorem run_disk_eq_run_head_iff (registry : Registry) (o : ScanOptions) (interrupted : Bool)
    (h : CleanCheckout ws o.root entries repo c) :
    ((∀ f, Filter.ofDirectory ws.tree o.root o.patterns o.excluded o.maxFileBytes = .ok f →
        ¬ ListsPointer f entries) →
      findings (run registry ws { o with git := false } interrupted) =
        findings (run registry ws { o with git := true } interrupted)) ∧
    ∀ f, Filter.ofDirectory ws.tree o.root o.patterns o.excluded o.maxFileBytes = .ok f →
      ∃ onDisk atHead, run registry ws { o with git := false } false = .ok onDisk ∧
        run registry ws { o with git := true } false = .ok atHead ∧
        onDisk.files = (filesBelow f (.dir entries)).map
          (analyzeFile registry (Language.normalizeHint o.language)) ∧
        atHead.files = onDisk.files.filter (·.path != gitDirName) ∧
        onDisk.summary = summarize onDisk.files ∧ atHead.summary = summarize atHead.files ∧
        (atHead.files = onDisk.files ∧ atHead.summary = onDisk.summary ↔
          ¬ ListsPointer f entries) := by
  have hself (f : Filter) := filter_filesBelow_eq_self_iff (f := f) h.wellFormed
  refine ⟨?same, ?reports⟩
  case same =>
    -- without a filter no listing starts, so both scans end in the same error
    intro hno
    cases hfilter : Filter.ofDirectory ws.tree o.root o.patterns o.excluded o.maxFileBytes with
    | error e => simp [run, list, hfilter, Except.mapError, bind, Except.bind]
    | ok f =>
      obtain ⟨hdisk, hhead⟩ := h.list_eq hfilter
      unfold run
      rw [hdisk, hhead, (hself f).mpr (hno f hfilter)]
      exact findings_reportOn _ _ _ _ _ _ _ rfl
  case reports =>
    intro f hfilter
    obtain ⟨hdisk, hhead⟩ := h.list_eq hfilter
    unfold run
    rw [hdisk, hhead]
    refine ⟨_, _, rfl, rfl, rfl, map_analyzeFile_filter registry _ (· != gitDirName) _, rfl, rfl, ?_⟩
    rw [← hself]
    constructor
    · rintro ⟨hfiles, -⟩
      -- results are as many as files, so no file can have been left out
      have hlength := congrArg List.length hfiles
      rw [List.length_map, List.length_map] at hlength
      exact List.filter_sublist.eq_of_length hlength
    · intro hall
      simp only [hall, and_self]

/-- A checkout with an ignored directory. Neither way of scanning finds the file in it, nor the one
in the repository. -/
theorem run_disk_eq_run_head_ignored :
    let nodes : List (Bytes × GitNode) :=
      [(Filter.ignoreFileName, .blob (Bytes.ofString "lib/")),
        (Bytes.ofString "a.py", .blob (Bytes.ofString "class A:\n  pass\n")),
        (Bytes.ofString "lib", .tree [(Bytes.ofString "b.py", .blob [])])]
    let git : Entry := .dir [(Bytes.ofString "c.py", .file [])]
    let entries : List (Bytes × Entry) :=
      [(gitDirName, git), (Filter.ignoreFileName, .file (Bytes.ofString "lib/")),
        (Bytes.ofString "a.py", .file (Bytes.ofString "class A:\n  pass\n")),
        (Bytes.ofString "lib", .dir [(Bytes.ofString "b.py", .file [])])]
    let c : Commit := ⟨[0x63], none, .tree nodes⟩
    let repo : Repository := ⟨.branch [0x6D], [([0x6D], c)]⟩
    let ws : Workspace := ⟨.dir [([0x72], .dir entries)], [(Bytes.ofString "/r/.git", repo)]⟩
    let o : ScanOptions := ⟨Bytes.ofString "/r", [Bytes.ofString "*.py"], [], false, 4, 0, []⟩
    CleanCheckout ws o.root entries repo c ∧
      findings (run .builtIn ws { o with git := false } true) =
        findings (run .builtIn ws { o with git := true } true) ∧
      ∃ onDisk atHead, run .builtIn ws { o with git := false } false = .ok onDisk ∧
        run .builtIn ws { o with git := true } false = .ok atHead ∧
        atHead.files = onDisk.files ∧
        onDisk.files.map FileResult.path = [Bytes.ofString "a.py"] := by
  intro nodes git entries c repo ws o
  have hplain : (GitNode.tree nodes).Plain := by
    refine .tree (by decide +kernel) (by decide +kernel) ?_
    simp only [nodes, List.forall_mem_cons]
    refine ⟨.blob _, .blob _, .tree (by simp) (by decide +kernel) ?_, by simp⟩
    simp only [List.forall_mem_cons]
    exact ⟨.blob _, by simp⟩
  have hgit : git.WellFormed := by
    refine .dir (by simp) (by decide +kernel) ?_
    simp only [List.forall_mem_cons]
    exact ⟨.file _, by simp⟩
  have hcopy : entries = Entry.withChild gitDirName git (GitNode.toEntries nodes) := by
    cbv
  have hclean : CleanCheckout ws o.root entries repo c :=
    .of_checkedOut hcopy (by decide +kernel) (by decide +kernel) (by cbv) (by cbv) (by cbv) rfl rfl
      hplain (by decide +kernel) hgit
  -- the repository is a directory, so there is no file in its place
  have hno : ∀ f, ¬ ListsPointer f entries := by
    rintro f ⟨content, hchild, -⟩
    have hdir : Entry.child? gitDirName entries = some git := by cbv
    have hfile : Entry.dir _ = Entry.file content := Option.some.inj (hdir.symm.trans hchild)
    cases hfile
  let f : Filter :=
    ⟨o.patterns, ignoredBy (o.excluded ++ Filter.lines (Bytes.ofString "lib/")), o.maxFileBytes⟩
  have hfilter :
      Filter.ofDirectory ws.tree o.root o.patterns o.excluded o.maxFileBytes = .ok f := by
    have hparts : parts (join o.root Filter.ignoreFileName) = [[0x72], Filter.ignoreFileName] := by
      decide +kernel
    have hwalk : ws.tree.walk true Entry.linkLimit [] [[0x72], Filter.ignoreFileName] =
        .ok ([[0x72], Filter.ignoreFileName], some (.file (Bytes.ofString "lib/"))) := by
      simp only [ws, entries, git]
      cbv
    rw [Filter.ofDirectory, Entry.read, Entry.lookup, Entry.locate, if_neg (by decide +kernel),
      hparts, hwalk]
  have hpaths :
      (filesBelow f (.dir entries)).map ScannedFile.path = [Bytes.ofString "a.py"] := by
    decide +kernel
  obtain ⟨hsame, hreports⟩ := run_disk_eq_run_head_iff .builtIn o true hclean
  obtain ⟨onDisk, atHead, hdisk, hhead, hfiles, -, -, -, hequal⟩ := hreports f hfilter
  refine ⟨hclean, hsame fun f _ => hno f, onDisk, atHead, hdisk, hhead, (hequal.mpr (hno f)).1, ?_⟩
  rw [hfiles, map_path_analyzeFile, hpaths]

/-- A working tree beside its repository. The file that says where that is, which is in no commit, is
among the files of the directory. -/
theorem run_disk_eq_run_head_pointer :
    let code := Bytes.ofString "class A \x7b\x7d\n"
    let entries : List (Bytes × Entry) :=
      [(gitDirName, .file (Bytes.ofString "gitdir: ../store/.git\n")),
        (Bytes.ofString "A.java", .file code)]
    let c : Commit := ⟨[0x63], none, .tree [(Bytes.ofString "A.java", .blob code)]⟩
    let repo : Repository := ⟨.branch [0x6D], [([0x6D], c)]⟩
    let store : Entry := .dir [(gitDirName, .dir []), (Bytes.ofString "A.java", .file code)]
    let ws : Workspace :=
      ⟨.dir [(Bytes.ofString "store", store), (Bytes.ofString "work", .dir entries)],
        [(Bytes.ofString "/store/.git", repo)]⟩
    let o : ScanOptions := ⟨Bytes.ofString "/work", [Bytes.ofString "*"], [], false, 4, 0, []⟩
    CleanCheckout ws o.root entries repo c ∧
      ∃ onDisk atHead, run .builtIn ws { o with git := false } false = .ok onDisk ∧
        run .builtIn ws { o with git := true } false = .ok atHead ∧
        onDisk.files.map FileResult.path = [gitDirName, Bytes.ofString "A.java"] ∧
        atHead.files.map FileResult.path = [Bytes.ofString "A.java"] := by
  intro code entries c repo store ws o
  have hplain : c.top.Plain := by
    refine .tree (by decide +kernel) (by decide +kernel) ?_
    simp only [List.forall_mem_cons]
    exact ⟨.blob _, by simp⟩
  have hcopy : entries = Entry.withChild gitDirName
      (.file (Bytes.ofString "gitdir: ../store/.git\n"))
      (GitNode.toEntries [(Bytes.ofString "A.java", .blob code)]) := by
    cbv
  have hclean : CleanCheckout ws o.root entries repo c :=
    .of_checkedOut hcopy (by decide +kernel) (by decide +kernel) (by cbv) (by cbv) (by cbv) rfl rfl
      hplain (by decide +kernel) (.file _)
  let f : Filter := ⟨o.patterns, ignoredBy o.excluded, o.maxFileBytes⟩
  have hfilter :
      Filter.ofDirectory ws.tree o.root o.patterns o.excluded o.maxFileBytes = .ok f := by
    have hparts : parts (join o.root Filter.ignoreFileName) =
        [Bytes.ofString "work", Filter.ignoreFileName] := by
      decide +kernel
    have hwalk : ws.tree.walk true Entry.linkLimit [] [Bytes.ofString "work", Filter.ignoreFileName] =
        .ok ([Bytes.ofString "work", Filter.ignoreFileName], none) := by
      simp only [ws, entries, store]
      cbv
    rw [Filter.ofDirectory, Entry.read, Entry.lookup, Entry.locate, if_neg (by decide +kernel),
      hparts, hwalk]
    rfl
  obtain ⟨hdisk, hhead⟩ := hclean.list_eq hfilter
  -- the pattern fits every name, and only directories are left out for a hidden one
  have hfiles : filesBelow f (.dir entries) =
      [⟨gitDirName, .ok (Bytes.ofString "gitdir: ../store/.git\n")⟩,
        ⟨Bytes.ofString "A.java", .ok code⟩] := by
    have hgit : f.accepts gitDirName (Bytes.ofString "gitdir: ../store/.git\n").length = true := by
      decide +kernel
    have hjava : f.accepts (Bytes.ofString "A.java") code.length = true := by decide +kernel
    have hbelow : ∀ n, below [] n = n := fun _ => rfl
    simp only [filesBelow, entries, filesIn, filesAt, hbelow, hgit, hjava, if_true, List.append_nil,
      List.singleton_append, sortFiles]
    apply List.mergeSort_of_pairwise
    rw [List.pairwise_pair]
    decide +kernel
  have hrest : (filesBelow f (.dir entries)).filter (·.path != gitDirName) =
      [⟨Bytes.ofString "A.java", .ok code⟩] := by
    rw [hfiles]
    rfl
  rw [hfiles] at hdisk
  rw [hrest] at hhead
  unfold run
  rw [hdisk, hhead]
  refine ⟨hclean, _, _, rfl, rfl, ?_, ?_⟩
  · rw [map_path_analyzeFile]
    rfl
  · rw [map_path_analyzeFile]
    rfl

end Scan

end ClassOutline
