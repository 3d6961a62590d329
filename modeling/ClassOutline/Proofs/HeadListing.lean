import ClassOutline.Proofs.Subdirectory

/-!
# What a scan of the last commit selects

A scan of the last commit that starts in a directory finds the way from the working tree to the
directory, and then compares texts: a file belongs to the directory if its path begins with that
way. Texts and directories are different things. A path may begin like another one without lying
below it, and a name may begin with two dots without leading up.

Here both steps are said in terms of the names that paths are made of. The way exists if and only if
the names of the working tree are a beginning of those of the directory
(`Scan.exists_error_worktreePrefix_iff`), and then it is the names that are left
(`Scan.worktreePrefix_of_parts`). The files that are shown are those whose names go on from the
names of the directory, each once and in byte order (`Scan.listsBelow_of_entries`).
-/

namespace ClassOutline

open ClassOutline.Path

/-! ## Paths without links -/

namespace Path

/-- A clean absolute path that leads through no link. -/
structure IsResolved (tree : Entry) (s : Bytes) : Prop where
  isAbsolute : isAbsolute s = true
  clean : clean s = s
  resolved : tree.resolve s = s

theorem IsResolved.exists_names {tree : Entry} {s : Bytes} (h : IsResolved tree s) :
    ∃ names, (∀ n ∈ names, IsName n) ∧ s = absolute names ∧ parts s = names := by
  have hnames := isName_of_mem_cleanParts h.isAbsolute
  have hs : s = absolute (cleanParts s) := by
    have hclean := h.clean
    rw [Path.clean, if_pos h.isAbsolute] at hclean
    exact hclean.symm
  refine ⟨cleanParts s, hnames, hs, ?_⟩
  conv_lhs => rw [hs]
  exact parts_absolute hnames

theorem absolute_append_lead {names : List Bytes} (hne : names ≠ []) (way : List Bytes) :
    absolute names ++ slash :: lead way = absolute (names ++ way) ++ [slash] := by
  have hall : lead (names ++ way) = lead names ++ lead way := List.flatMap_append
  have hjoined : joined (names ++ way) ++ [slash] = joined names ++ slash :: lead way := by
    rw [joined_slash (List.append_ne_nil_of_left_ne_nil hne way), hall, ← joined_slash hne,
      List.append_assoc, List.singleton_append]
  show slash :: (joined names ++ slash :: lead way) = slash :: (joined (names ++ way) ++ [slash])
  rw [hjoined]

end Path

/-! ## The way to a directory -/

namespace Scan

variable {tree : Entry} {cwd worktree root : Bytes} {base target way : List Bytes}

/-- A resolved path is looked at as it is. -/
theorem cleanParts_resolvePath {s : Bytes} (h : IsResolved tree s) (cwd : Bytes) :
    cleanParts (resolvePath tree cwd s) = parts s := by
  obtain ⟨names, hnames, rfl, hparts⟩ := h.exists_names
  rw [resolvePath, seenFrom, if_pos h.isAbsolute, h.clean, h.resolved, cleanParts_absolute hnames,
    hparts]

/-- Names that only go on from those of the working tree are the way to the directory. -/
theorem worktreePrefix_eq_ok (hbase : cleanParts (resolvePath tree cwd worktree) = base)
    (htarget : cleanParts (resolvePath tree cwd root) = base ++ way)
    (hway : ∀ n ∈ way, IsName n) : worktreePrefix tree cwd worktree root = .ok (lead way) := by
  unfold worktreePrefix
  rw [hbase, htarget, relativeParts_append]
  cases way with
  | nil => rfl
  | cons n way =>
    have hdown : n ≠ dotDot := (hway n List.mem_cons_self).ne_dotDot
    simp only [List.isEmpty_cons, List.head?_cons, beq_iff_eq, Option.some.injEq, hdown, if_false,
      Bool.false_eq_true]
    rw [← joined, joined_slash (List.cons_ne_nil _ _)]

/-- From names that do not lead to the directory the way goes up first, and is refused. -/
theorem worktreePrefix_eq_error (hbase : cleanParts (resolvePath tree cwd worktree) = base)
    (htarget : cleanParts (resolvePath tree cwd root) = target) (hnot : ¬ base <+: target) :
    worktreePrefix tree cwd worktree root = .error (.outside root worktree) := by
  have hup : (relativeParts base target).head? = some dotDot :=
    (relativeParts_cases base target).resolve_right fun heq => hnot ⟨_, heq.symm⟩
  have hne : (relativeParts base target).isEmpty = false := by
    cases hrel : relativeParts base target with
    | nil => simp [hrel] at hup
    | cons n rest => rfl
  unfold worktreePrefix
  rw [hbase, htarget]
  simp only [hne, hup, beq_self_eq_true, if_true, Bool.false_eq_true, if_false]

section Resolved

variable {s t : Bytes} (hs : IsResolved tree s) (ht : IsResolved tree t)

include hs ht

/-- Between resolved paths, the names that are left are the way. -/
theorem worktreePrefix_of_parts (hway : parts t = parts s ++ way) :
    (∀ n ∈ way, IsName n) ∧ worktreePrefix tree cwd s t = .ok (lead way) := by
  have hvalid : ∀ n ∈ way, IsName n := by
    obtain ⟨names, hnames, -, hparts⟩ := ht.exists_names
    intro n hn
    exact hnames n (hparts ▸ hway ▸ List.mem_append_right _ hn)
  exact ⟨hvalid, worktreePrefix_eq_ok (cleanParts_resolvePath hs cwd)
    ((cleanParts_resolvePath ht cwd).trans hway) hvalid⟩

theorem exists_error_worktreePrefix_iff :
    (∃ e, worktreePrefix tree cwd s t = .error e) ↔ ¬ parts s <+: parts t := by
  constructor
  · rintro ⟨e, he⟩ ⟨way, hway⟩
    rw [(worktreePrefix_of_parts hs ht hway.symm).2] at he
    cases he
  · intro hnot
    exact ⟨_, worktreePrefix_eq_error (cleanParts_resolvePath hs cwd)
      (cleanParts_resolvePath ht cwd) hnot⟩

theorem lead_eq_of_parts (hway : parts t = parts s ++ way) :
    lead way = if s = t then [] else joined way ++ [slash] := by
  by_cases hne : way = []
  · subst hne
    obtain ⟨above, -, rfl, hparts⟩ := hs.exists_names
    obtain ⟨names, -, rfl, hparts'⟩ := ht.exists_names
    rw [hparts, hparts', List.append_nil] at hway
    rw [hway, if_pos rfl]
    rfl
  · have hdiffer : s ≠ t := by
      rintro rfl
      exact hne (List.self_eq_append_right.mp hway)
    rw [if_neg hdiffer, joined_slash hne]

/-- The working tree and the way are the directory. -/
theorem append_worktreePrefix {p : Bytes} (hp : worktreePrefix tree cwd s t = .ok p)
    (hroot : s ≠ [slash]) : s ++ slash :: p = t ++ [slash] := by
  have hleads : parts s <+: parts t := by
    by_contra hnot
    obtain ⟨e, he⟩ := (exists_error_worktreePrefix_iff hs ht).mpr hnot
    rw [he] at hp
    cases hp
  obtain ⟨way, hway⟩ := hleads
  rw [(worktreePrefix_of_parts hs ht hway.symm).2] at hp
  obtain rfl := Except.ok.inj hp
  obtain ⟨above, -, rfl, hparts⟩ := hs.exists_names
  obtain ⟨names, -, rfl, hparts'⟩ := ht.exists_names
  rw [hparts, hparts'] at hway
  rw [← hway]
  refine absolute_append_lead ?_ way
  rintro rfl
  exact hroot rfl

end Resolved

/-- Where there is a way from the working tree to a directory, the names of the directory are those
of the working tree and the way. -/
theorem exists_way_of_worktreePrefix {p : Bytes} (hroot : isAbsolute root = true)
    (h : worktreePrefix tree cwd worktree root = .ok p) :
    ∃ way, (∀ n ∈ way, IsName n) ∧ p = lead way ∧
      cleanParts (resolvePath tree cwd root) =
        cleanParts (resolvePath tree cwd worktree) ++ way := by
  -- otherwise the way would begin with two dots, and be refused
  by_cases hleads : cleanParts (resolvePath tree cwd worktree) <+:
      cleanParts (resolvePath tree cwd root)
  · obtain ⟨way, hway⟩ := hleads
    have hnames : ∀ n ∈ way, IsName n := by
      intro n hn
      have hall := isName_of_mem_cleanParts (isAbsolute_resolvePath tree cwd hroot)
      exact hall n (hway ▸ List.mem_append_right _ hn)
    rw [worktreePrefix_eq_ok rfl hway.symm hnames] at h
    exact ⟨way, hnames, (Except.ok.inj h).symm, hway.symm⟩
  · rw [worktreePrefix_eq_error rfl rfl hleads] at h
    cases h

end Scan

/-! ## The entries of a commit -/

namespace GitNode

variable {n : GitNode} {dirs : List Bytes}

/-- A node as commits have them: the entries of a directory have different and proper names. What
cannot be read is let in. -/
inductive Proper : GitNode → Prop where
  | blob (content : Bytes) : Proper (.blob content)
  | link (target : Bytes) : Proper (.link target)
  | brokenBlob (fault : ObjectFault) : Proper (.brokenBlob fault)
  | brokenTree (fault : ObjectFault) : Proper (.brokenTree fault)
  | tree {entries : List (Bytes × GitNode)} (nodup : (entries.map Prod.fst).Nodup)
      (names : ∀ e ∈ entries, IsName e.1) (below : ∀ e ∈ entries, Proper e.2) :
      Proper (.tree entries)

theorem Proper.named (h : n.Proper) : n.Named := by
  induction h with
  | blob content => exact .blob content
  | link target => exact .link target
  | brokenBlob fault => exact .brokenBlob fault
  | brokenTree fault => exact .brokenTree fault
  | tree _ hnames _ ih => exact .tree hnames ih

/-- No path is listed twice. -/
theorem Proper.files_nodup (h : n.Proper) (hdirs : ∀ m ∈ dirs, IsName m) :
    ((n.files (joined dirs)).map Prod.fst).Nodup := by
  induction h generalizing dirs with
  | blob _ | link _ | brokenBlob _ | brokenTree _ => simp [files]
  | @tree entries hnodup hnames hbelow ih =>
    rw [files, filesOf_eq_flatMap, List.map_flatMap, List.nodup_flatMap]
    have hdown : ∀ e ∈ entries, ∀ m ∈ dirs ++ [e.1], IsName m :=
      fun e he => forall_isName_concat hdirs (hnames e he)
    refine ⟨?_, ?_⟩
    · intro e he
      rw [below_joined hdirs]
      exact ih e he (hdown e he)
    · -- the paths below different entries differ in the name of the entry
      rw [List.nodup_iff_pairwise_ne, List.pairwise_map] at hnodup
      refine hnodup.imp_of_mem fun {a b} ha hb hab => ?_
      intro path hpa hpb
      obtain ⟨x, hx, rfl⟩ := List.mem_map.mp hpa
      obtain ⟨y, hy, heq⟩ := List.mem_map.mp hpb
      rw [below_joined hdirs] at hx hy
      obtain ⟨more, hmore, hxpath⟩ := (hbelow a ha).named.exists_names (hdown a ha) hx
      obtain ⟨more', hmore', hypath⟩ := (hbelow b hb).named.exists_names (hdown b hb) hy
      have hsame : dirs ++ [b.1] ++ more' = dirs ++ [a.1] ++ more := by
        refine joined_injective (List.forall_mem_append.mpr ⟨hdown b hb, hmore'⟩)
          (List.forall_mem_append.mpr ⟨hdown a ha, hmore⟩) ?_
        rw [← hxpath, ← hypath, heq]
      simp only [List.append_assoc, List.append_cancel_left_eq, List.singleton_append,
        List.cons.injEq] at hsame
      exact hab hsame.1.symm

end GitNode

/-! ## The listing -/

namespace Scan

variable {f : Filter} {ws : Workspace} {repo : Repository} {root worktree p : Bytes} {c : Commit}
  {ignored : Bytes → Bool} {way : List Bytes} {files : List ScannedFile} {rev : Revision}

/-- A listing of the files of a commit below a directory, to which `way` leads from the top. -/
structure ListsBelow (f : Filter) (ignored : Bytes → Bool) (top : GitNode) (way : List Bytes)
    (files : List ScannedFile) : Prop where
  /-- A file is shown if it is an entry whose names go on from the way, unless the rules leave it out
  or the filter does not accept what comes behind the way. -/
  mem_iff : ∀ s, s ∈ files ↔ ∃ more content, more ≠ [] ∧ (∀ n ∈ more, IsName n) ∧
    (joined (way ++ more), .ok content) ∈ top.files [] ∧ s = ⟨joined more, .ok content⟩ ∧
    ignored (joined (way ++ more)) = false ∧ f.accepts (joined more) content.length = true
  /-- The path of the entry is the way and the path that is shown. -/
  entry : ∀ s ∈ files, ∃ content, s.content = .ok content ∧
    (lead way ++ s.path, .ok content) ∈ top.files []
  sorted : files.Pairwise Before

/-- A listing of the last commit that succeeds has read all of it. -/
theorem headFiles_eq_ok (hopen : openRepository ws root = .ok (repo, worktree))
    (hhead : repo.headCommit? = some c) (h : headFiles ws root f = .ok (files, rev)) :
    ∃ p ignored, worktreePrefix ws.tree root worktree root = .ok p ∧
      rulesAbove c.top p = .ok ignored ∧
      files = sortFiles ((c.top.files []).filterMap (listedBelow? f p ignored)) := by
  -- every step before the files must have succeeded
  cases hway : worktreePrefix ws.tree root worktree root with
  | error e => simp [headFiles, hopen, hway, bind, Except.bind] at h
  | ok p =>
    cases hfault : c.fault with
    | some fault => simp [headFiles, hopen, hway, hhead, hfault, bind, Except.bind] at h
    | none =>
      by_cases hbroken : ∃ fault, c.top = .brokenTree fault
      · obtain ⟨fault, hbroken⟩ := hbroken
        simp [headFiles, hopen, hway, hhead, hfault, hbroken, bind, Except.bind] at h
      have htop : ∀ fault, c.top ≠ .brokenTree fault := fun fault heq => hbroken ⟨fault, heq⟩
      cases hrules : rulesAbove c.top p with
      | error e =>
        rw [rulesAbove] at hrules
        simp only [headFiles, hopen, hway, hhead, hfault, bind, Except.bind, pure,
          Except.pure] at h
        split at hrules
        · cases hrules
        · rename_i hne
          simp [hne, hrules] at h
      | ok ignored =>
        rw [headFiles_eq f hopen hway hhead hfault htop hrules] at h
        -- a file that cannot be read would have ended the listing
        have hread : ∀ x ∈ c.top.files [], ∃ content, x.2 = .ok content := by
          by_contra hnot
          push Not at hnot
          obtain ⟨fault, herror⟩ := commitFiles_of_fault hnot
          rw [herror] at h
          cases h
        rw [commitFiles_of_readable f p ignored hread] at h
        exact ⟨p, ignored, rfl, hrules, (congrArg Prod.fst (Except.ok.inj h)).symm⟩

/-- Below a directory, different entries are shown by different paths. -/
theorem nodup_listedBelow {l : List (Bytes × Except ObjectFault Bytes)}
    (h : (l.map Prod.fst).Nodup) :
    ((l.filterMap (listedBelow? f p ignored)).map ScannedFile.path).Nodup := by
  rw [List.map_filterMap, List.nodup_iff_pairwise_ne]
  rw [List.nodup_iff_pairwise_ne, List.pairwise_map] at h
  refine h.filterMap _ fun x y hxy path hx path' hy heq => hxy ?_
  obtain ⟨⟨rel, read⟩, hlisted, rfl⟩ := Option.map_eq_some_iff.mp hx
  obtain ⟨⟨rel', read'⟩, hlisted', rfl⟩ := Option.map_eq_some_iff.mp hy
  obtain ⟨content, -, rfl, -⟩ := listedBelow?_eq_some_iff.mp hlisted
  obtain ⟨content', -, rfl, -⟩ := listedBelow?_eq_some_iff.mp hlisted'
  exact congrArg (p ++ ·) heq

theorem listsBelow_of_entries {entries : List (Bytes × GitNode)}
    (hproper : (GitNode.tree entries).Proper) (hway : ∀ n ∈ way, IsName n) :
    ListsBelow f ignored (.tree entries) way (sortFiles
      (((GitNode.tree entries).files []).filterMap (listedBelow? f (lead way) ignored))) := by
  have hmem : ∀ rel read, ⟨rel, read⟩ ∈ sortFiles
      (((GitNode.tree entries).files []).filterMap (listedBelow? f (lead way) ignored)) ↔
      ∃ content, read = .ok content ∧
        (lead way ++ rel, .ok content) ∈ (GitNode.tree entries).files [] ∧
        ignored (lead way ++ rel) = false ∧ f.accepts rel content.length = true := by
    intro rel read
    simp only [mem_sortFiles, List.mem_filterMap, listedBelow?_eq_some_iff]
    constructor
    · rintro ⟨x, hx, content, hread, rfl, hlisted⟩
      exact ⟨content, hread, hx, hlisted⟩
    · rintro ⟨content, hread, hx, hlisted⟩
      exact ⟨_, hx, content, hread, rfl, hlisted⟩
  refine ⟨?_, ?_, ?_⟩
  · rintro ⟨rel, read⟩
    rw [hmem]
    constructor
    · rintro ⟨content, rfl, hx, hlisted⟩
      obtain ⟨more, hne, hmore, rfl⟩ := hproper.named.exists_names_below hway hx
      rw [← joined_append way hne] at hx hlisted
      exact ⟨more, content, hne, hmore, hx, rfl, hlisted⟩
    · rintro ⟨more, content, hne, -, hx, hs, hlisted⟩
      obtain ⟨rfl, rfl⟩ := ScannedFile.mk.inj hs
      rw [joined_append way hne] at hx hlisted
      exact ⟨content, rfl, hx, hlisted⟩
  · rintro ⟨rel, read⟩ hs
    obtain ⟨content, hread, hx, -⟩ := (hmem rel read).mp hs
    exact ⟨content, hread, hx⟩
  · exact sortFiles_pairwise (nodup_listedBelow (hproper.files_nodup (List.forall_mem_nil _)))

/-- **A scan of the last commit selects the entries below its directory.** For resolved paths, the
way from a working tree to a directory exists if and only if the names of the working tree are a
beginning of those of the directory. It is then made of the names that are left, so that the working
tree and the way give the directory. A listing shows the entries whose names go on from there, in
strict order. -/
theorem headFiles_selects_below :
    (∀ (tree : Entry) (cwd base target : Bytes), IsResolved tree base → IsResolved tree target →
      ((∃ e, worktreePrefix tree cwd base target = .error e) ↔ ¬ parts base <+: parts target) ∧
      (∀ way, parts target = parts base ++ way → (∀ n ∈ way, n ≠ dotDot) ∧
        worktreePrefix tree cwd base target =
          .ok (if base = target then [] else joined way ++ [slash])) ∧
      ∀ p, worktreePrefix tree cwd base target = .ok p → base ≠ [slash] →
        base ++ slash :: p = target ++ [slash]) ∧
    ∀ (ws : Workspace) (root worktree : Bytes) (f : Filter) (repo : Repository) (c : Commit)
      (entries : List (Bytes × GitNode)) (files : List ScannedFile) (rev : Revision),
      isAbsolute root = true → openRepository ws root = .ok (repo, worktree) →
      repo.headCommit? = some c → c.top = .tree entries → (GitNode.tree entries).Proper →
      headFiles ws root f = .ok (files, rev) →
      ∃ way ignored, worktreePrefix ws.tree root worktree root = .ok (lead way) ∧
        cleanParts (resolvePath ws.tree root root) =
          cleanParts (resolvePath ws.tree root worktree) ++ way ∧
        rulesAbove c.top (lead way) = .ok ignored ∧ ListsBelow f ignored c.top way files := by
  refine ⟨fun tree cwd base target hbase htarget => ⟨?_, ?_, ?_⟩, ?_⟩
  · exact exists_error_worktreePrefix_iff hbase htarget
  · intro way hway
    obtain ⟨hvalid, hleads⟩ := worktreePrefix_of_parts hbase htarget hway
    rw [← lead_eq_of_parts hbase htarget hway]
    exact ⟨fun n hn => (hvalid n hn).ne_dotDot, hleads⟩
  · intro p hp hroot
    exact append_worktreePrefix hbase htarget hp hroot
  · intro ws root worktree f repo c entries files rev hroot hopen hhead htop hproper h
    obtain ⟨p, ignored, hp, hrules, rfl⟩ := headFiles_eq_ok hopen hhead h
    obtain ⟨way, hway, rfl, hplace⟩ := exists_way_of_worktreePrefix hroot hp
    refine ⟨way, ignored, hp, hplace, hrules, ?_⟩
    rw [htop]
    exact listsBelow_of_entries hproper hway

/-- A directory whose name begins with two dots, beside one whose name begins like it. -/
theorem headFiles_selects_below_sibling :
    let r := Bytes.ofString "r"
    let dots := Bytes.ofString "..a"
    let c : Commit := ⟨[0x63], none, .tree [(dots, .tree [(Bytes.ofString "b.py", .blob [0x62])]),
      (Bytes.ofString "..a2", .tree [(Bytes.ofString "c.py", .blob [0x63])])]⟩
    let repo : Repository := ⟨.commit c, []⟩
    let ws : Workspace :=
      ⟨.dir [(r, .dir [(dots, .dir []), (gitDirName, .dir [])])], [(Bytes.ofString "/r/.git", repo)]⟩
    let f : Filter := ⟨[Bytes.ofString "*.py"], fun _ => false, 0⟩
    worktreePrefix ws.tree [] (absolute [r]) (absolute [r, dots]) = .ok (Bytes.ofString "..a/") ∧
      ∃ files rev, headFiles ws (absolute [r, dots]) f = .ok (files, rev) ∧
        ⟨Bytes.ofString "b.py", .ok [0x62]⟩ ∈ files ∧
        ∀ s ∈ files, s.path = Bytes.ofString "b.py" := by
  intro r dots c repo ws f
  have hnames : ∀ n ∈ [r, dots], IsName n := by decide +kernel
  have htree : ws.tree.get? [r, dots] = some (.dir []) := rfl
  obtain ⟨siblings, htop⟩ := Entry.get?_of_append (a := [r]) htree
  have hbase : IsResolved ws.tree (absolute [r]) :=
    ⟨rfl, clean_absolute (by decide +kernel), Entry.resolve_directory (by decide +kernel) htop⟩
  have htarget : IsResolved ws.tree (absolute [r, dots]) :=
    ⟨rfl, clean_absolute hnames, Entry.resolve_directory hnames htree⟩
  have hfiles : c.top.files [] = [(Bytes.ofString "..a/b.py", .ok [0x62]),
      (Bytes.ofString "..a2/c.py", .ok [0x63])] := rfl
  have hopen : openRepository ws (absolute [r, dots]) = .ok (repo, absolute [r]) := by
    show openRepository ws (absolute ([r] ++ [dots])) = _
    refine openRepository_below hnames (by cbv) ?_
    intro down hne hdown
    obtain rfl : down = [dots] := by
      obtain ⟨n, down, rfl⟩ := List.exists_cons_of_ne_nil hne
      simpa [List.cons_prefix_cons] using hdown
    cbv
  have hway : worktreePrefix ws.tree (absolute [r, dots]) (absolute [r])
      (absolute ([r] ++ [dots])) = .ok (lead [dots]) := worktreePrefix_below _ hnames htree
  have hread : c.Readable := ⟨rfl, by simp [c], by simp [hfiles]⟩
  obtain ⟨files, hlist, hmem⟩ := headFiles_of_readable f hopen hway rfl hread rfl
  obtain ⟨hleads, hselects⟩ := headFiles_selects_below
  refine ⟨((hleads ws.tree [] _ _ hbase htarget).2.1 [dots] (by decide +kernel)).2.trans
    (by decide +kernel), files, _, hlist, ?_, ?_⟩
  · exact (hmem _ _).mpr ⟨[0x62], rfl, by rw [hfiles]; exact List.mem_cons_self, rfl,
      by decide +kernel⟩
  have hproper : c.top.Proper := by
    refine .tree (by decide +kernel) (by simp only [List.forall_mem_cons]; decide +kernel) ?_
    simp only [List.forall_mem_cons]
    refine ⟨.tree (by simp) (by decide +kernel) ?_, .tree (by simp) (by decide +kernel) ?_, by simp⟩
    · simp only [List.forall_mem_cons]
      exact ⟨.blob _, by simp⟩
    · simp only [List.forall_mem_cons]
      exact ⟨.blob _, by simp⟩
  obtain ⟨way, ignored, hway', -, -, hlisting⟩ :=
    hselects ws _ _ f repo c _ files _ rfl hopen rfl rfl hproper hlist
  have hlead : lead way = Bytes.ofString "..a/" :=
    (Except.ok.inj (hway'.symm.trans hway)).trans (by decide +kernel)
  intro s hs
  obtain ⟨content, -, hentry⟩ := hlisting.entry s hs
  rw [hlead, hfiles] at hentry
  simp only [List.mem_cons, List.not_mem_nil, or_false, Prod.mk.injEq] at hentry
  rcases hentry with ⟨hpath, -⟩ | ⟨hpath, -⟩
  · exact List.append_cancel_left (hpath.trans (by decide +kernel :
      Bytes.ofString "..a/b.py" = Bytes.ofString "..a/" ++ Bytes.ofString "b.py"))
  · -- the other directory has a letter more before its slash
    have hbegins : Bytes.ofString "..a/" <+: Bytes.ofString "..a2/c.py" := ⟨_, hpath⟩
    exact absurd hbegins (by decide +kernel)

end Scan

end ClassOutline
