import ClassOutline.Proofs.Files.Paths
import Mathlib

/-!
# Listing a directory

A scan walks a directory from the top and does not enter a directory that the filter skips. Whether a
file is accepted is decided from its path alone, by looking at every directory above it. The two agree
for every filter: what the walk finds are the accepted ones among all files of the tree, each once
and in byte order (`Scan.listDirectory_eq_filter`).

## Main definitions

* `Entry.WellFormed`: a tree as file systems have it, where the entries of a directory have different
  and proper names.
* `Entry.regular`: all files of a tree, each by the names that lead to it.
-/

namespace ClassOutline

open ClassOutline.Path

namespace Entry

/-! ## The files of a tree -/

/-- A tree in which the entries of each directory have different names, all of them proper. -/
inductive WellFormed : Entry → Prop where
  | file (content : Bytes) : WellFormed (.file content)
  | link (target : Bytes) : WellFormed (.link target)
  | special : WellFormed .special
  | dir {entries : List (Bytes × Entry)} (nodup : (entries.map Prod.fst).Nodup)
      (names : ∀ e ∈ entries, IsName e.1) (below : ∀ e ∈ entries, WellFormed e.2) :
      WellFormed (.dir entries)

mutual

/-- The files of an entry, each by the names that lead to it, with its content. -/
def regular : Entry → List (List Bytes × Bytes)
  | .file content => [([], content)]
  | .link _ | .special => []
  | .dir entries => regularIn entries

/-- The files in the entries of a directory. -/
def regularIn : List (Bytes × Entry) → List (List Bytes × Bytes)
  | [] => []
  | (name, e) :: rest => e.regular.map (fun x => (name :: x.1, x.2)) ++ regularIn rest

end

variable {e : Entry} {entries : List (Bytes × Entry)} {names : List Bytes} {content : Bytes}

theorem regularIn_eq_flatMap (entries : List (Bytes × Entry)) :
    regularIn entries = entries.flatMap fun e => e.2.regular.map fun x => (e.1 :: x.1, x.2) := by
  induction entries with
  | nil => rfl
  | cons e rest ih =>
    rw [regularIn, ih]
    rfl

theorem mem_regularIn {x : List Bytes × Bytes} :
    x ∈ regularIn entries ↔
      ∃ e ∈ entries, ∃ more, (more, x.2) ∈ e.2.regular ∧ x.1 = e.1 :: more := by
  rw [regularIn_eq_flatMap]
  simp only [List.mem_flatMap, List.mem_map]
  constructor
  · rintro ⟨e, he, ⟨more, c⟩, hmem, rfl⟩
    exact ⟨e, he, more, hmem, rfl⟩
  · rintro ⟨e, he, more, hmem, hx⟩
    exact ⟨e, he, (more, x.2), hmem, Prod.ext hx.symm rfl⟩

theorem child?_eq_some_iff (hnodup : (entries.map Prod.fst).Nodup) {n : Bytes} :
    child? n entries = some e ↔ (n, e) ∈ entries := by
  induction entries with
  | nil => simp [child?]
  | cons a rest ih =>
    rw [List.map_cons, List.nodup_cons] at hnodup
    rw [child?, List.mem_cons]
    by_cases hn : a.1 = n
    · -- the name stands here and nowhere behind
      have hrest : (n, e) ∉ rest := fun h => hnodup.1 (hn ▸ List.mem_map_of_mem h)
      simp [hn, hrest, Prod.ext_iff, eq_comm]
    · have hne : (n, e) ≠ a := fun h => hn (congrArg Prod.fst h).symm
      simp [hn, hne, ih hnodup.2]

/-- The files of a tree are those that its names lead to. -/
theorem WellFormed.mem_regular (h : e.WellFormed) :
    (names, content) ∈ e.regular ↔ e.get? names = some (.file content) := by
  induction h generalizing names with
  | file c => cases names <;> simp [regular, get?, eq_comm]
  | link t => cases names <;> simp [regular, get?]
  | special => cases names <;> simp [regular, get?]
  | @dir entries hnodup _ _ ih =>
    rw [regular, mem_regularIn]
    cases names with
    | nil => simp [get?]
    | cons n more =>
      rw [get?]
      cases hchild : child? n entries with
      | none =>
        simp only [reduceCtorEq, iff_false]
        rintro ⟨e, he, more', -, hx⟩
        obtain ⟨rfl, -⟩ := List.cons.inj hx
        have hfound := (child?_eq_some_iff hnodup).mpr he
        simp [hchild] at hfound
      | some e =>
        have he : (n, e) ∈ entries := (child?_eq_some_iff hnodup).mp hchild
        simp only
        rw [← ih (n, e) he]
        constructor
        · rintro ⟨a, ha, more', hmem, hx⟩
          obtain ⟨rfl, rfl⟩ := List.cons.inj hx
          have hfound := (child?_eq_some_iff hnodup).mpr ha
          rw [hchild] at hfound
          obtain rfl := Option.some.inj hfound
          exact hmem
        · intro hmem
          exact ⟨(n, e), he, more, hmem, rfl⟩

theorem WellFormed.names_of_get? (h : e.WellFormed) {e' : Entry} (he : e.get? names = some e') :
    ∀ n ∈ names, IsName n := by
  induction h generalizing names with
  | file c => cases names <;> simp [get?] at he ⊢
  | link t => cases names <;> simp [get?] at he ⊢
  | special => cases names <;> simp [get?] at he ⊢
  | @dir entries hnodup hnames _ ih =>
    cases names with
    | nil => simp
    | cons m more =>
      rw [get?] at he
      split at he
      · rename_i child hchild
        have hmem := (child?_eq_some_iff hnodup).mp hchild
        intro n hn
        rcases List.mem_cons.mp hn with rfl | hn
        · exact hnames _ hmem
        · exact ih _ hmem he n hn
      · cases he

theorem WellFormed.names_of_mem_regular (h : e.WellFormed) {x : List Bytes × Bytes}
    (hx : x ∈ e.regular) : ∀ n ∈ x.1, IsName n :=
  h.names_of_get? (h.mem_regular.mp hx)

/-- No file is found twice. -/
theorem WellFormed.regular_nodup (h : e.WellFormed) : (e.regular.map Prod.fst).Nodup := by
  induction h with
  | file c => simp [regular]
  | link t => simp [regular]
  | special => simp [regular]
  | @dir entries hnodup _ _ ih =>
    rw [regular, regularIn_eq_flatMap, List.map_flatMap, List.nodup_flatMap]
    refine ⟨?_, ?_⟩
    · intro e he
      have hcons : (e.2.regular.map fun x => (e.1 :: x.1, x.2)).map Prod.fst =
          (e.2.regular.map Prod.fst).map (e.1 :: ·) := by simp
      rw [hcons]
      exact (ih e he).map (List.cons_injective)
    · -- files in different entries differ in the first name
      rw [List.nodup_iff_pairwise_ne, List.pairwise_map] at hnodup
      refine hnodup.imp fun {a b} hab => ?_
      intro names ha hb
      simp only [List.map_map, List.mem_map, Function.comp_apply] at ha hb
      obtain ⟨x, -, rfl⟩ := ha
      obtain ⟨y, -, hy⟩ := hb
      exact hab (List.cons.inj hy).1.symm

end Entry

namespace Filter

/-- No file below a directory that is left out is accepted. -/
theorem accepts_eq_false_of_skipsDir {f : Filter} {dirs names : List Bytes} {n : Bytes} {size : Int}
    (hskip : f.skipsDir (joined dirs) = true) (hdirs : dirs ≠ []) (habove : dirs <+: names)
    (hnames : ∀ m ∈ names, IsName m) (hn : IsName n) :
    f.accepts (joined (names ++ [n])) size = false := by
  have hmem : joined dirs ∈ enclosing (joined (names ++ [n])) := by
    rw [enclosing_joined hnames hn]
    exact List.mem_map_of_mem (mem_beginnings.mpr ⟨hdirs, habove⟩)
  have hall : (enclosing (joined (names ++ [n]))).all (fun dir => !f.skipsDir dir) = false := by
    rw [List.all_eq_false]
    exact ⟨_, hmem, by simp [hskip]⟩
  simp [accepts, hall]

end Filter

namespace Scan

/-! ## The walk -/

/-- A file below a directory, as a scan shows it. -/
def shown (dirs : List Bytes) (x : List Bytes × Bytes) : ScannedFile :=
  ⟨joined (dirs ++ x.1), .ok x.2⟩

/-- The accepted ones among some files below a directory. -/
def acceptedFiles (f : Filter) (dirs : List Bytes) (files : List (List Bytes × Bytes)) :
    List ScannedFile :=
  (files.filter fun x => f.accepts (joined (dirs ++ x.1)) x.2.length).map (shown dirs)

variable {f : Filter} {dirs : List Bytes} {entries : List (Bytes × Entry)} {e : Entry}

/-- What the walk finds in a directory, if it finds the right files in each entry of it. -/
theorem filesIn_eq (hdirs : ∀ n ∈ dirs, IsName n)
    (hentries : ∀ e ∈ entries,
      filesAt f (joined (dirs ++ [e.1])) e.2 = acceptedFiles f (dirs ++ [e.1]) e.2.regular) :
    filesIn f (joined dirs) entries = acceptedFiles f dirs (Entry.regularIn entries) := by
  induction entries with
  | nil => rfl
  | cons e rest ih =>
    obtain ⟨name, entry⟩ := e
    have hrest := ih fun e he => hentries e (List.mem_cons_of_mem _ he)
    have hfirst := hentries (name, entry) List.mem_cons_self
    rw [filesIn, below_joined hdirs, hfirst, hrest, Entry.regularIn]
    simp only [acceptedFiles, List.filter_append, List.map_append, List.filter_map, List.map_map]
    congr 2
    · funext x
      simp [shown]
    · simp [Function.comp_def]

/-- The walk at an entry finds the accepted files of the entry, although it looks into no directory
that is skipped. -/
theorem filesAt_eq (h : e.WellFormed) (hne : dirs ≠ []) (hdirs : ∀ n ∈ dirs, IsName n) :
    filesAt f (joined dirs) e = acceptedFiles f dirs e.regular := by
  -- along the tree, with the names that lead to the entry
  induction h generalizing dirs with
  | file c =>
    simp only [filesAt, Entry.regular, acceptedFiles, List.filter_cons, List.filter_nil,
      List.append_nil]
    split <;> simp [shown]
  | link t => rfl
  | special => rfl
  | @dir entries hnodup hnames hbelow ih =>
    rw [filesAt, Entry.regular]
    split
    · rename_i hskip
      -- every file below lies in the directory that is skipped
      have hnone : (Entry.regularIn entries).filter
          (fun x => f.accepts (joined (dirs ++ x.1)) x.2.length) = [] := by
        rw [List.filter_eq_nil_iff]
        intro x hx
        have hvalid : ∀ n ∈ x.1, IsName n :=
          (Entry.WellFormed.dir hnodup hnames hbelow).names_of_mem_regular hx
        obtain ⟨e, -, more, -, hcons⟩ := Entry.mem_regularIn.mp hx
        -- so the names that lead to it are that directory's and more, the last one its own
        obtain ⟨init, last, hlast⟩ := List.eq_nil_or_concat' x.1 |>.resolve_left (by simp [hcons])
        rw [hlast] at hvalid ⊢
        rw [← List.append_assoc, Filter.accepts_eq_false_of_skipsDir hskip hne (by simp)]
        · simp
        · exact List.forall_mem_append.mpr ⟨hdirs, fun n hn => hvalid n (List.mem_append_left _ hn)⟩
        · exact hvalid last (by simp)
      rw [acceptedFiles, hnone, List.map_nil]
    · apply filesIn_eq hdirs
      intro e he
      exact ih e he (by simp) (forall_isName_concat hdirs (hnames e he))

theorem mem_acceptedFiles {s : ScannedFile} {files : List (List Bytes × Bytes)} :
    s ∈ acceptedFiles f [] files ↔
      ∃ names content, (names, content) ∈ files ∧ s = ⟨joined names, .ok content⟩ ∧
        f.accepts (joined names) content.length = true := by
  simp only [acceptedFiles, List.mem_map, List.mem_filter, List.nil_append, shown]
  constructor
  · rintro ⟨⟨names, content⟩, ⟨hmem, hacc⟩, rfl⟩
    exact ⟨names, content, hmem, rfl, hacc⟩
  · rintro ⟨names, content, hmem, rfl, hacc⟩
    exact ⟨(names, content), ⟨hmem, hacc⟩, rfl⟩

/-- Different files of a tree have different paths. -/
theorem acceptedFiles_nodup (h : e.WellFormed) :
    ((acceptedFiles f [] e.regular).map ScannedFile.path).Nodup := by
  have hpaths : (acceptedFiles f [] e.regular).map ScannedFile.path =
      ((e.regular.filter fun x => f.accepts (joined x.1) x.2.length).map Prod.fst).map joined := by
    simp [acceptedFiles, shown, Function.comp_def]
  rw [hpaths]
  -- a path tells its names, and no names are found twice
  apply List.Nodup.map_on
  · intro a ha b hb hab
    obtain ⟨x, hx, rfl⟩ := List.mem_map.mp ha
    obtain ⟨y, hy, rfl⟩ := List.mem_map.mp hb
    exact joined_injective (h.names_of_mem_regular (List.mem_filter.mp hx).1)
      (h.names_of_mem_regular (List.mem_filter.mp hy).1) hab
  · exact h.regular_nodup.sublist (List.filter_sublist.map _)

theorem filesBelow_eq (h : (Entry.dir entries).WellFormed) :
    filesBelow f (.dir entries) = sortFiles (acceptedFiles f [] (Entry.dir entries).regular) := by
  cases h with
  | dir hnodup hnames hbelow =>
    rw [filesBelow, Entry.regular]
    congr 1
    have hentries : ∀ e ∈ entries,
        filesAt f (joined ([] ++ [e.1])) e.2 = acceptedFiles f ([] ++ [e.1]) e.2.regular := by
      intro e he
      exact filesAt_eq (hbelow e he) (by simp) (by simpa using hnames e he)
    exact filesIn_eq (List.forall_mem_nil _) hentries

/-! ## The listing -/

/-- What a list of files has to be to list the accepted files of a tree: it holds these files and
nothing else, in the strict byte order of their paths, so each of them once. -/
structure Lists (f : Filter) (root : Entry) (files : List ScannedFile) : Prop where
  mem_iff : ∀ s, s ∈ files ↔ ∃ names content, root.get? names = some (.file content) ∧
    s = ⟨joined names, .ok content⟩ ∧ f.accepts (joined names) content.length = true
  sorted : files.Pairwise Before
  /-- Neither a link nor a special entry nor a directory is among them. -/
  regular : ∀ names e, root.get? names = some e → (∃ s ∈ files, s.path = joined names) →
    ∃ content, e = .file content

theorem lists_sortFiles {root : Entry} (h : root.WellFormed) :
    Lists f root (sortFiles (acceptedFiles f [] root.regular)) := by
  have hmem : ∀ s, s ∈ sortFiles (acceptedFiles f [] root.regular) ↔
      ∃ names content, root.get? names = some (.file content) ∧ s = ⟨joined names, .ok content⟩ ∧
        f.accepts (joined names) content.length = true := by
    intro s
    simp only [mem_sortFiles, mem_acceptedFiles, h.mem_regular]
  refine ⟨hmem, sortFiles_pairwise (acceptedFiles_nodup h), ?_⟩
  rintro names e he ⟨s, hs, hpath⟩
  obtain ⟨names', content, hfile, rfl, -⟩ := (hmem s).mp hs
  obtain rfl : names' = names :=
    joined_injective (h.names_of_get? hfile) (h.names_of_get? he) hpath
  rw [hfile] at he
  exact ⟨content, (Option.some.inj he).symm⟩

/-- **Pruning loses nothing.** The listing of a directory is what is left of all the files of its tree
when those that the filter does not accept are taken out, although whole directories are never looked
into. -/
theorem listDirectory_eq_filter (f : Filter) (tree : Entry) (root : Bytes)
    (entries : List (Bytes × Entry)) (hroot : tree.lstat root = .ok (.dir entries))
    (hwf : (Entry.dir entries).WellFormed) :
    ∃ files, listDirectory tree root f = .ok files ∧
      files = sortFiles (acceptedFiles f [] (Entry.dir entries).regular) ∧
      Lists f (.dir entries) files := by
  refine ⟨_, ?_, rfl, lists_sortFiles hwf⟩
  rw [listDirectory, hroot, ← filesBelow_eq hwf]
  rfl

/-- A directory that is ignored hides the file in it, though the file is not ignored itself. -/
theorem listDirectory_eq_filter_ignored :
    let entries : List (Bytes × Entry) :=
      [(Bytes.ofString "a.py", .file [0x61]),
        (Bytes.ofString "lib", .dir [(Bytes.ofString "b.py", .file [0x62])]),
        (Bytes.ofString "link.py", .link (Bytes.ofString "a.py")),
        (Bytes.ofString "pipe.py", .special)]
    let tree : Entry := .dir [(Bytes.ofString "r", .dir entries)]
    let f : Filter := ⟨[Bytes.ofString "*.py"], (· == Bytes.ofString "lib"), 0⟩
    tree.lstat (Bytes.ofString "/r") = .ok (.dir entries) ∧ (Entry.dir entries).WellFormed ∧
      ∃ files, listDirectory tree (Bytes.ofString "/r") f = .ok files ∧
        files.map ScannedFile.path = [Bytes.ofString "a.py"] := by
  intro entries tree f
  have hroot : tree.lstat (Bytes.ofString "/r") = .ok (.dir entries) := by cbv
  have hwf : (Entry.dir entries).WellFormed := by
    refine .dir (by decide +kernel) (by decide +kernel) ?_
    simp only [entries, List.forall_mem_cons]
    refine ⟨.file _, .dir (by simp) (by decide +kernel) ?_, .link _, .special, by simp⟩
    simp only [List.forall_mem_cons]
    exact ⟨.file _, by simp⟩
  obtain ⟨files, hlist, hsorted, -⟩ := listDirectory_eq_filter f tree _ entries hroot hwf
  refine ⟨hroot, hwf, files, hlist, ?_⟩
  have haccepted : acceptedFiles f [] (Entry.dir entries).regular =
      [⟨Bytes.ofString "a.py", .ok [0x61]⟩] := by cbv
  rw [hsorted, haccepted, sortFiles, List.mergeSort_singleton]
  rfl

end Scan

end ClassOutline
