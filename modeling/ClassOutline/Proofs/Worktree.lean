import ClassOutline.Proofs.Checkout

/-!
# Directories of a working tree

A scan of the last commit that starts in a directory looks for the repository there and then in the
directories above, and finds its place in the working tree by following links. Seen from below, the
working tree that is found has its repository in itself (`Scan.openRepository_worktree`), and the
way down from there is made of names (`Scan.exists_names_of_worktreePrefix`). Seen from above, a
real directory without a repository of its own belongs to the working tree and has the names on the
way to it in front of the paths of its files (`Scan.openRepository_below`,
`Scan.worktreePrefix_below`).
-/

namespace ClassOutline

open ClassOutline.Path

/-! ## Real directories -/

namespace Entry

variable {tree : Entry} {names : List Bytes} {entries : List (Bytes × Entry)}

/-- Names that lead from one directory to another are walked as they are, unless one is too long. -/
theorem walk_directory (here : List Bytes) (follow : Bool) (links : Nat)
    (hnames : ∀ n ∈ names, IsName n) (hdir : tree.get? (here ++ names) = some (.dir entries)) :
    tree.walk follow links here names = .ok (here ++ names, some (.dir entries)) ∨
      tree.walk follow links here names = .error .nameTooLong := by
  induction names generalizing here with
  | nil =>
    rw [List.append_nil] at hdir
    rw [walk, List.append_nil, hdir]
    exact .inl rfl
  | cons n names ih =>
    rw [List.forall_mem_cons] at hnames
    obtain ⟨siblings, hhere⟩ := get?_of_append hdir
    have hdown := hdir
    rw [get?_append, hhere, Option.bind_some, get?] at hdown
    cases hchild : child? n siblings with
    | none => simp [hchild] at hdown
    | some e =>
      simp only [hchild] at hdown
      rw [List.append_cons] at hdir ⊢
      rw [walk_cons]
      by_cases hlong : 255 < n.length
      · rw [(Turns.tooLong hhere hnames.1.ne_dot hnames.1.ne_dotDot hlong).eq]
        exact .inr rfl
      · -- a link would end the way: below it there is neither a name nor a directory
        have hlink : ∀ target, e ≠ .link target := by
          rintro target rfl
          cases names <;> simp [get?] at hdown
        rw [(Turns.down hhere ⟨hnames.1.ne_dot, hnames.1.ne_dotDot, hlong⟩ hchild hlink).eq]
        exact ih _ hnames.2 hdir

/-- A path of real directories is free of links. -/
theorem resolve_directory (hnames : ∀ n ∈ names, IsName n)
    (hdir : tree.get? names = some (.dir entries)) :
    tree.resolve (absolute names) = absolute names := by
  unfold resolve locate
  rw [parts_absolute hnames]
  by_cases hzero : List.elem 0 (absolute names) = true
  · simp only [hzero, if_true]
  · rw [if_neg hzero]
    rcases walk_directory [] true resolveLimit hnames hdir with hwalk | hwalk <;> rw [hwalk]
    rfl

end Entry

namespace Scan

variable {ws : Workspace} {repo : Repository} {root dir p : Bytes} {above names : List Bytes}

/-! ## The working tree above a directory -/

theorem openFrom_eq_ok {depth : Nat} {parts : List Bytes}
    (h : openFrom ws depth parts = .ok (repo, root)) :
    ∃ above, above <+: parts ∧ root = absolute above ∧
      repositoryIn ws root = some (.ok repo) := by
  fun_induction openFrom ws depth parts with
  | case1 depth parts dir r hrepo =>
    obtain _ | r := r
    · cases h
    · obtain ⟨rfl, rfl⟩ : r = repo ∧ dir = root := by simpa [Except.map] using h
      exact ⟨parts, List.prefix_refl _, rfl, hrepo⟩
  | case2 parts dir hnone => cases h
  | case3 parts dir hnone depth ih =>
    obtain ⟨above, habove, hfound⟩ := ih h
    exact ⟨above, habove.trans (List.dropLast_prefix _), hfound⟩

/-- The working tree that a directory belongs to is one of its own. -/
theorem openRepository_worktree (hdir : isAbsolute dir = true)
    (h : openRepository ws dir = .ok (repo, root)) : openRepository ws root = .ok (repo, root) := by
  obtain ⟨above, habove, rfl, hrepo⟩ := openFrom_eq_ok h
  apply openRepository_here _ hrepo
  rw [cleanParts_absolute fun n hn => isName_of_mem_cleanParts hdir n (habove.subset hn)]

theorem isAbsolute_resolvePath (tree : Entry) (cwd : Bytes) (hdir : isAbsolute dir = true) :
    isAbsolute (resolvePath tree cwd dir) = true := by
  rw [resolvePath, seenFrom, if_pos hdir, Entry.resolve]
  split
  · rfl
  · rw [clean, if_pos hdir]
    rfl

/-- The way from a working tree to a directory in it goes down only, by names. -/
theorem exists_names_of_worktreePrefix {tree : Entry} {cwd worktree : Bytes}
    (hdir : isAbsolute dir = true) (h : worktreePrefix tree cwd worktree dir = .ok p) :
    ∃ names, (∀ n ∈ names, IsName n) ∧ p = lead names := by
  have hnames := isName_of_mem_cleanParts (isAbsolute_resolvePath tree cwd hdir)
  have hcases := relativeParts_cases (cleanParts (resolvePath tree cwd worktree))
    (cleanParts (resolvePath tree cwd dir))
  unfold worktreePrefix at h
  -- a way that goes up first is refused, so this one goes on from the working tree
  generalize relativeParts _ _ = way at h hcases
  dsimp only at h
  split at h
  · rename_i hempty
    obtain rfl := List.isEmpty_iff.mp hempty
    exact ⟨[], List.forall_mem_nil _, (Except.ok.inj h).symm⟩
  · rename_i hne
    split at h
    · cases h
    · rename_i hdown
      have hway := hcases.resolve_left fun hup => hdown (beq_iff_eq.mpr hup)
      refine ⟨way, fun n hn => hnames n (hway ▸ List.mem_append_right _ hn), ?_⟩
      rw [← joined_slash fun hnil => hne (List.isEmpty_iff.mpr hnil)]
      exact (Except.ok.inj h).symm

/-! ## The directories below a working tree -/

theorem openFrom_below {depth : Nat} (hdepth : names.length ≤ depth)
    (hrepo : repositoryIn ws (absolute above) = some (.ok repo))
    (hnone : ∀ down, down ≠ [] → down <+: names →
      repositoryIn ws (absolute (above ++ down)) = none) :
    openFrom ws depth (above ++ names) = .ok (repo, absolute above) := by
  induction names using List.reverseRecOn generalizing depth with
  | nil =>
    rw [openFrom.eq_def]
    simp only [List.append_nil, hrepo]
    rfl
  | append_singleton names n ih =>
    -- the lowest directory has no repository, so the search is the one from the directory above
    have hhere := hnone (names ++ [n]) (by simp) (List.prefix_refl _)
    rw [List.length_append, List.length_singleton] at hdepth
    cases depth with
    | zero => omega
    | succ depth =>
      rw [openFrom.eq_def]
      simp only [hhere]
      rw [← List.append_assoc, List.dropLast_concat]
      apply ih (by omega)
      exact fun down hne hdown => hnone down hne (hdown.trans (List.prefix_append _ _))

/-- A directory below a working tree belongs to it, if no directory on the way has a repository of
its own. -/
theorem openRepository_below (hnames : ∀ n ∈ above ++ names, IsName n)
    (hrepo : repositoryIn ws (absolute above) = some (.ok repo))
    (hnone : ∀ down, down ≠ [] → down <+: names →
      repositoryIn ws (absolute (above ++ down)) = none) :
    openRepository ws (absolute (above ++ names)) = .ok (repo, absolute above) := by
  unfold openRepository
  rw [cleanParts_absolute hnames]
  exact openFrom_below (by simp) hrepo hnone

theorem resolvePath_directory {tree : Entry} {entries : List (Bytes × Entry)} (cwd : Bytes)
    (hnames : ∀ n ∈ names, IsName n) (hdir : tree.get? names = some (.dir entries)) :
    resolvePath tree cwd (absolute names) = absolute names := by
  have habs : isAbsolute (absolute names) = true := rfl
  rw [resolvePath, seenFrom, if_pos habs, clean_absolute hnames,
    Entry.resolve_directory hnames hdir]

/-- The paths of the files of a real directory begin with the names on the way to it. -/
theorem worktreePrefix_below {tree : Entry} {entries : List (Bytes × Entry)} (cwd : Bytes)
    (hnames : ∀ n ∈ above ++ names, IsName n)
    (hdir : tree.get? (above ++ names) = some (.dir entries)) :
    worktreePrefix tree cwd (absolute above) (absolute (above ++ names)) = .ok (lead names) := by
  have hsplit := List.forall_mem_append.mp hnames
  obtain ⟨top, htop⟩ := Entry.get?_of_append hdir
  unfold worktreePrefix
  rw [resolvePath_directory cwd hnames hdir, resolvePath_directory cwd hsplit.1 htop,
    cleanParts_absolute hnames, cleanParts_absolute hsplit.1, relativeParts_append]
  cases names with
  | nil => rfl
  | cons n names =>
    have hdown : n ≠ dotDot := (hsplit.2 n List.mem_cons_self).ne_dotDot
    simp only [List.isEmpty_cons, List.head?_cons, beq_iff_eq, Option.some.injEq, hdown, if_false,
      Bool.false_eq_true]
    rw [← joined, joined_slash (List.cons_ne_nil _ _)]

end Scan

end ClassOutline
