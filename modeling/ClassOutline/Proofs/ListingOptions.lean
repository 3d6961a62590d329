import ClassOutline.Proofs.Text.Endings
import ClassOutline.Proofs.Worktree

/-!
# Listings and the options of a scan

A stricter filter lists fewer files. What makes a filter stricter is said once (`Filter.Narrows`):
fewer patterns, more ignored paths, a smaller limit. Both ways of listing follow it, the walk through
a directory (`Scan.filesBelow_fewer`) and the files of the last commit (`Scan.headFiles_fewer`),
though the walk enters fewer directories then and looks at less.

Ignore lines are read in order and may take back what earlier ones left out, so that more lines can
mean more files. A line that takes nothing back only leaves out more, wherever it is put in
(`ignoredBy_insert`). A line that is put into the ignore file makes that file larger, and the file
may be one of those that are listed: the two trees are then compared by `Entry.Grown`.

A limit that is not positive is none. The limit zero is therefore not below the positive ones but
above them all, and limits are compared as `Filter.Narrows` has it.
-/

namespace ClassOutline

open ClassOutline.Path

/-! ## Computations that may fail -/

/-- Two computations that fail with the same error, or give related values. -/
inductive Agree {ε α β : Type} (R : α → β → Prop) : Except ε α → Except ε β → Prop where
  | error (e : ε) : Agree R (.error e) (.error e)
  | ok {a : α} {b : β} (h : R a b) : Agree R (.ok a) (.ok b)

namespace Agree

variable {ε ε' α β γ δ : Type} {R : α → β → Prop} {S : γ → δ → Prop} {x : Except ε α}
  {y : Except ε β}

theorem refl {R : α → α → Prop} (hR : ∀ a, R a a) (x : Except ε α) : Agree R x x := by
  cases x with
  | error e => exact .error e
  | ok a => exact .ok (hR a)

theorem mapError (h : Agree R x y) (f : ε → ε') : Agree R (x.mapError f) (y.mapError f) := by
  cases h with
  | error e => exact .error (f e)
  | ok hab => exact .ok hab

theorem bind (h : Agree R x y) {f : α → Except ε γ} {g : β → Except ε δ}
    (hnext : ∀ a b, R a b → Agree S (f a) (g b)) : Agree S (x >>= f) (y >>= g) := by
  cases h with
  | error e => exact .error e
  | ok hab => exact hnext _ _ hab

theorem map (h : Agree R x y) {f : α → γ} {g : β → δ} (hnext : ∀ a b, R a b → S (f a) (g b)) :
    Agree S (x.map f) (y.map g) := by
  cases h with
  | error e => exact .error e
  | ok hab => exact .ok (hnext _ _ hab)

theorem swap (h : Agree R x y) : Agree (fun b a => R a b) y x := by
  cases h with
  | error e => exact .error e
  | ok hab => exact .ok hab

end Agree

/-! ## Ignore lines -/

namespace IgnoreLine

variable {a b : List IgnoreLine} {l : IgnoreLine} {path : Bytes}

/-- What one line makes of the verdict of those before it. -/
def judge (path : Bytes) (ignored : Bool) (l : IgnoreLine) : Bool :=
  if l.speaksOf path then !l.negated else ignored

theorem ignores_eq_foldl (lines : List IgnoreLine) (path : Bytes) :
    ignores lines path = lines.foldl (judge path) false := rfl

/-- A verdict against a path is never turned round by an earlier verdict against it. -/
theorem foldl_judge_mono {lines : List IgnoreLine} {ignored ignored' : Bool}
    (h : ignored = true → ignored' = true) (hlines : lines.foldl (judge path) ignored = true) :
    lines.foldl (judge path) ignored' = true := by
  induction lines generalizing ignored ignored' with
  | nil => exact h hlines
  | cons l lines ih =>
    refine ih ?_ hlines
    unfold judge
    split
    · exact id
    · exact h

theorem ignores_insert (hplain : l.negated = false) (h : ignores (a ++ b) path = true) :
    ignores (a ++ l :: b) path = true := by
  rw [ignores_eq_foldl, List.foldl_append] at h ⊢
  rw [List.foldl_cons]
  refine foldl_judge_mono ?_ h
  intro hbefore
  simp [judge, hplain, hbefore]

/-- Whether a line of text takes paths back: an exclamation mark stands first, spaces apart. -/
def takesBack (line : Bytes) : Bool := (line.dropWhile (· == 0x20)).head? == some 0x21

/-- What stands first behind the spaces of a text stands there too when the text goes on. -/
theorem head?_dropWhile_of_prefix {q : UInt8 → Bool} {s t : Bytes} {c : UInt8} (h : t <+: s)
    (hc : (t.dropWhile q).head? = some c) : (s.dropWhile q).head? = some c := by
  obtain ⟨more, rfl⟩ := h
  rw [List.dropWhile_append]
  cases hdrop : t.dropWhile q with
  | nil => simp [hdrop] at hc
  | cons b rest =>
    rw [hdrop] at hc
    exact hc

theorem negated_of_read {line : Bytes} (h : read line = some l) (hplain : takesBack line = false) :
    l.negated = false := by
  simp only [read] at h
  split at h
  · cases h
  · split at h
    · cases h
    · obtain ⟨paths, -, rfl⟩ := Option.map_eq_some_iff.mp h
      by_contra hnegated
      rw [Bool.not_eq_false, beq_iff_eq, trimSpaces] at hnegated
      -- neither the spaces nor the returns at the end stand in front of the mark
      obtain ⟨rest, hrest⟩ := List.head?_eq_some_iff.mp hnegated
      obtain ⟨spaces, hspaces⟩ := Bytes.dropWhileEnd_isPrefix (· == 0x20)
        ((Bytes.dropWhileEnd (· == 13) line).dropWhile (· == 0x20))
      rw [hrest] at hspaces
      have hmark := head?_dropWhile_of_prefix (Bytes.dropWhileEnd_isPrefix (· == 13) line)
        (congrArg List.head? hspaces.symm)
      simp [takesBack, hmark] at hplain

end IgnoreLine

/-- One more line that takes nothing back leaves out no fewer paths. -/
theorem ignoredBy_insert {a b : List Bytes} {line path : Bytes}
    (hplain : IgnoreLine.takesBack line = false) (h : ignoredBy (a ++ b) path = true) :
    ignoredBy (a ++ line :: b) path = true := by
  unfold ignoredBy at h ⊢
  rw [List.filterMap_append] at h ⊢
  rw [List.filterMap_cons]
  split
  · exact h
  · rename_i l hl
    exact IgnoreLine.ignores_insert (IgnoreLine.negated_of_read hl hplain) h

/-! ## Narrower filters -/

namespace Filter

/-- Every rule of one filter is at least as strict as that of another. -/
structure Narrows (f g : Filter) : Prop where
  patterns : ∀ pattern ∈ f.patterns, pattern ∈ g.patterns
  ignored : ∀ path, g.ignored path = true → f.ignored path = true
  maxBytes : 0 < g.maxBytes → 0 < f.maxBytes ∧ f.maxBytes ≤ g.maxBytes

variable {f g : Filter} {path : Bytes} {size size' : Int}

theorem Narrows.skipsDir (h : f.Narrows g) (hskip : g.skipsDir path = true) :
    f.skipsDir path = true := by
  unfold Filter.skipsDir at hskip ⊢
  split at hskip
  · cases hskip
  · rename_i hroot
    rw [if_neg hroot, Bool.or_eq_true]
    rw [Bool.or_eq_true] at hskip
    exact hskip.imp_right (h.ignored path)

/-- What a narrower filter accepts at some size, the other one accepts at any smaller size. -/
theorem Narrows.accepts (h : f.Narrows g) (hsize : size ≤ size')
    (haccepts : f.accepts path size' = true) : g.accepts path size = true := by
  simp only [Filter.accepts, Bool.and_eq_true, Bool.not_eq_true', Bool.and_eq_false_iff,
    decide_eq_false_iff_not, List.all_eq_true, List.any_eq_true] at haccepts ⊢
  obtain ⟨⟨⟨hlimit, hignored⟩, habove⟩, pattern, hpattern, hmatch⟩ := haccepts
  refine ⟨⟨⟨?_, ?_⟩, ?_⟩, pattern, h.patterns pattern hpattern, hmatch⟩
  · have hmax := h.maxBytes
    omega
  · rw [← Bool.not_eq_true]
    intro hg
    rw [h.ignored path hg] at hignored
    cases hignored
  · intro dir hdir
    have hf := habove dir hdir
    rw [← Bool.not_eq_true] at hf ⊢
    exact fun hg => hf (h.skipsDir hg)

section Directory

variable {tree : Entry} {root : Bytes} {patterns patterns' excluded excluded' : List Bytes}
  {maxBytes maxBytes' : Int}

/-- Two filters of a directory are compared by their own rules, whatever its ignore file says. -/
theorem narrows_ofDirectory
    (h : ∀ more, Narrows ⟨patterns, ignoredBy (excluded ++ more), maxBytes⟩
      ⟨patterns', ignoredBy (excluded' ++ more), maxBytes'⟩) :
    Agree Narrows (ofDirectory tree root patterns excluded maxBytes)
      (ofDirectory tree root patterns' excluded' maxBytes') := by
  unfold ofDirectory
  split
  · rename_i text _
    exact .ok (h (lines text))
  · split
    · have hnone := h []
      rw [List.append_nil, List.append_nil] at hnone
      exact .ok hnone
    · exact .error _

end Directory

end Filter

/-! ## Trees in which files have grown -/

namespace Entry

/-- The same tree, in which files may have grown. The entries of a directory are given with what
they were and what they have become. -/
inductive Grown : Entry → Entry → Prop where
  | file {old new : Bytes} (h : old.length ≤ new.length) : Grown (.file old) (.file new)
  | link (target : Bytes) : Grown (.link target) (.link target)
  | special : Grown .special .special
  | dir {entries : List (Bytes × Entry × Entry)} (h : ∀ x ∈ entries, Grown x.2.1 x.2.2) :
      Grown (.dir (entries.map fun x => (x.1, x.2.1))) (.dir (entries.map fun x => (x.1, x.2.2)))

mutual

theorem Grown.refl : ∀ e : Entry, Grown e e
  | .file _ => .file (Nat.le_refl _)
  | .link target => .link target
  | .special => .special
  | .dir entries => by
    have hpairs : ∀ x ∈ entries.map fun e => (e.1, e.2, e.2), Grown x.2.1 x.2.2 := by
      intro x hx
      obtain ⟨e, he, rfl⟩ := List.mem_map.mp hx
      exact Grown.refl_of_mem entries e he
    simpa [Function.comp_def] using Grown.dir hpairs

theorem Grown.refl_of_mem : ∀ entries : List (Bytes × Entry), ∀ e ∈ entries, Grown e.2 e.2
  | [] => List.forall_mem_nil _
  | (_, e) :: rest => List.forall_mem_cons.mpr ⟨Grown.refl e, Grown.refl_of_mem rest⟩

end

variable {e e' root root' : Entry}

/-- A name is an entry of both directories or of neither. -/
theorem child?_grown (entries : List (Bytes × Entry × Entry)) (name : Bytes)
    (h : ∀ x ∈ entries, Grown x.2.1 x.2.2) :
    Option.Rel Grown (child? name (entries.map fun x => (x.1, x.2.1)))
      (child? name (entries.map fun x => (x.1, x.2.2))) := by
  induction entries with
  | nil => exact .none
  | cons x rest ih =>
    rw [List.forall_mem_cons] at h
    rw [List.map_cons, List.map_cons, child?, child?]
    split
    · exact .some h.1
    · exact ih h.2

theorem Grown.get? (h : Grown e e') (names : List Bytes) :
    Option.Rel Grown (e.get? names) (e'.get? names) := by
  induction names generalizing e e' with
  | nil => exact .some h
  | cons n names ih =>
    cases h with
    | file _ | link _ | special => exact .none
    | @dir entries hentries =>
      rw [Entry.get?, Entry.get?]
      have hchild := child?_grown entries n hentries
      generalize child? n (entries.map fun x => (x.1, x.2.1)) = old at hchild ⊢
      generalize child? n (entries.map fun x => (x.1, x.2.2)) = new at hchild ⊢
      cases hchild with
      | none => exact .none
      | some hgrown => exact ih hgrown

theorem eq_none_of_rel {old new : Option Entry} (h : Option.Rel Grown old new) (hold : old = none) :
    new = none := by
  subst hold
  cases h
  rfl

theorem exists_of_rel {old new : Option Entry} (h : Option.Rel Grown old new) (hold : old = some e) :
    ∃ e', new = some e' ∧ Grown e e' := by
  subst hold
  cases h with
  | some hgrown => exact ⟨_, rfl, hgrown⟩

/-- Where there was a directory there is one, with the same names in it. -/
theorem Grown.get?_dir (h : Grown root root') {here : List Bytes} {old : List (Bytes × Entry)}
    (hold : root.get? here = some (.dir old)) :
    ∃ new, root'.get? here = some (.dir new) ∧
      ∀ name, Option.Rel Grown (child? name old) (child? name new) := by
  obtain ⟨e', he', hgrown⟩ := exists_of_rel (h.get? here) hold
  cases hgrown with
  | @dir entries hentries => exact ⟨_, he', fun name => child?_grown entries name hentries⟩

theorem Grown.get?_not_dir (h : Grown root root') {here : List Bytes}
    (hold : ∀ old, root.get? here ≠ some (.dir old)) : ∀ new, root'.get? here ≠ some (.dir new) := by
  have hhere := h.get? here
  intro new hnew
  rw [hnew] at hhere
  generalize hfound : root.get? here = found at hhere
  cases hhere with
  | some hgrown =>
    cases hgrown with
    | dir _ => exact hold _ hfound

/-- The same place, with entries that have grown. -/
def SamePlace (old new : List Bytes × Option Entry) : Prop :=
  old.1 = new.1 ∧ Option.Rel Grown old.2 new.2

/-- A part means the same where files have grown: names and links are as they were. -/
theorem Grown.turn (h : Grown root root') (here : List Bytes) (part : Bytes) :
    root'.turn here part = root.turn here part := by
  have hturn := root.turns here part
  generalize root.turn here part = t at hturn
  cases hturn with
  | stay hdir hdot =>
    obtain ⟨new, hnew, -⟩ := h.get?_dir hdir
    exact (Turns.stay hnew hdot).eq
  | up hdir hup =>
    obtain ⟨new, hnew, -⟩ := h.get?_dir hdir
    exact (Turns.up hnew hup).eq
  | down hdir hname hchild hlink =>
    obtain ⟨new, hnew, hsame⟩ := h.get?_dir hdir
    obtain ⟨e', hpart, hgrown⟩ := exists_of_rel (hsame part) hchild
    apply (Turns.down hnew hname hpart ?_).eq
    -- only a link grows into a link
    cases hgrown with
    | link target => exact absurd rfl (hlink target)
    | file _ | special | dir _ => nofun
  | link hdir hname hchild =>
    obtain ⟨new, hnew, hsame⟩ := h.get?_dir hdir
    obtain ⟨_, hpart, ⟨⟩⟩ := exists_of_rel (hsame part) hchild
    exact (Turns.link hnew hname hpart).eq
  | nothing hdir hname hchild =>
    obtain ⟨new, hnew, hsame⟩ := h.get?_dir hdir
    exact (Turns.nothing hnew hname (eq_none_of_rel (hsame part) hchild)).eq
  | tooLong hdir hdot hup hlong =>
    obtain ⟨new, hnew, -⟩ := h.get?_dir hdir
    exact (Turns.tooLong hnew hdot hup hlong).eq
  | notDirectory hdir => exact (Turns.notDirectory (h.get?_not_dir hdir)).eq

/-- A walk looks at names and links only, so it leads to the same place when files have grown. -/
theorem Grown.walk (h : Grown root root') (follow : Bool) (links : Nat) (here parts : List Bytes) :
    Agree SamePlace (root.walk follow links here parts) (root'.walk follow links here parts) := by
  induction links, here, parts using walk_induct with
  | nil links here =>
    rw [Entry.walk, Entry.walk]
    exact .ok ⟨rfl, h.get? here⟩
  | cons links here part rest ih fewer =>
    rw [walk_cons, walk_cons, h.turn]
    cases root.turn here part with
    | onward next => exact ih next
    | link target =>
      dsimp only
      split
      · exact .ok ⟨rfl, .some (.link target)⟩
      · cases links with
        | zero => exact .error _
        | succ left => exact fewer left rfl _ _
    | nothing =>
      dsimp only
      split
      · exact .ok ⟨rfl, .none⟩
      · exact .error _
    | refused fault => exact .error _

theorem Grown.locate (h : Grown root root') (follow : Bool) (links : Nat) (path : Bytes) :
    Agree SamePlace (root.locate follow links path) (root'.locate follow links path) := by
  unfold Entry.locate
  split
  · exact .error _
  · exact h.walk follow links [] _

theorem Grown.resolve (h : Grown root root') (path : Bytes) :
    root'.resolve path = root.resolve path := by
  unfold Entry.resolve
  have hplace := h.locate true resolveLimit path
  generalize root.locate true resolveLimit path = old at hplace ⊢
  generalize root'.locate true resolveLimit path = new at hplace ⊢
  cases hplace with
  | error fault => rfl
  | @ok old new hplace =>
    obtain ⟨place, old⟩ := old
    obtain ⟨place', new⟩ := new
    obtain ⟨rfl, hentry⟩ := hplace
    cases hentry <;> rfl

theorem Grown.lstat (h : Grown root root') (path : Bytes) :
    Agree Grown (root.lstat path) (root'.lstat path) := by
  refine Agree.mapError ?_ _
  unfold Entry.lookup
  have hplace := h.locate false linkLimit path
  generalize root.locate false linkLimit path = old at hplace ⊢
  generalize root'.locate false linkLimit path = new at hplace ⊢
  cases hplace with
  | error fault => exact .error fault
  | @ok old new hplace =>
    obtain ⟨place, old⟩ := old
    obtain ⟨place', new⟩ := new
    obtain ⟨rfl, hentry⟩ := hplace
    cases hentry with
    | none => exact .error _
    | some hgrown => exact .ok hgrown

end Entry

namespace Scan

open Entry (Grown)

variable {f g : Filter} {e e' : Entry} {few many few' many' : List ScannedFile}

/-! ## Listings within others -/

/-- Every path of one list of files is a path of another. -/
def Within (few many : List ScannedFile) : Prop := few.map (·.path) ⊆ many.map (·.path)

theorem Within.append (h : Within few many) (h' : Within few' many') :
    Within (few ++ few') (many ++ many') := by
  unfold Within
  rw [List.map_append, List.map_append]
  exact List.append_subset.mpr ⟨List.subset_append_of_subset_left _ h,
    List.subset_append_of_subset_right _ h'⟩

theorem Within.sortFiles (h : Within few many) : Within (sortFiles few) (sortFiles many) := by
  have hperm (files : List ScannedFile) :
      ((Scan.sortFiles files).map (·.path)).Perm (files.map (·.path)) :=
    (List.mergeSort_perm _ _).map _
  exact List.Subset.trans (hperm few).subset (List.Subset.trans h (hperm many).symm.subset)

/-! ### Walking a directory -/

theorem filesIn_fewer {entries : List (Bytes × Entry × Entry)}
    (h : ∀ x ∈ entries, ∀ path, Within (filesAt f path x.2.2) (filesAt g path x.2.1)) (dir : Bytes) :
    Within (filesIn f dir (entries.map fun x => (x.1, x.2.2)))
      (filesIn g dir (entries.map fun x => (x.1, x.2.1))) := by
  induction entries with
  | nil => exact List.nil_subset _
  | cons x rest ih =>
    rw [List.forall_mem_cons] at h
    exact (h.1 (below dir x.1)).append (ih h.2)

/-- A narrower filter enters no other directories and accepts no other files, also where files have
grown. -/
theorem filesAt_fewer (hf : f.Narrows g) (h : Grown e e') (path : Bytes) :
    Within (filesAt f path e') (filesAt g path e) := by
  -- on the entries that have grown; the path goes on with each directory
  induction h generalizing path with
  | @file old new hsize =>
    rw [filesAt, filesAt]
    split
    · rename_i haccepts
      rw [if_pos (hf.accepts (by omega) haccepts)]
      exact List.Subset.refl _
    · exact List.nil_subset _
  | link target => exact List.nil_subset _
  | special => exact List.nil_subset _
  | @dir entries _ ih =>
    rw [filesAt, filesAt]
    split
    · exact List.nil_subset _
    · rename_i henters
      rw [if_neg fun hskip => henters (hf.skipsDir hskip)]
      exact filesIn_fewer ih path

theorem filesBelow_fewer (hf : f.Narrows g) (h : Grown e e') :
    Within (filesBelow f e') (filesBelow g e) := by
  cases h with
  | file _ | link _ | special => exact List.nil_subset _
  | dir hentries =>
    exact (filesIn_fewer (fun x hx => filesAt_fewer hf (hentries x hx)) []).sortFiles

/-! ### The last commit -/

theorem commitFiles_fewer (hf : f.Narrows g) (lead : Bytes) (ignored : Bytes → Bool)
    (files : List (Bytes × Except ObjectFault Bytes)) :
    Agree Within (commitFiles f lead ignored files) (commitFiles g lead ignored files) := by
  induction files with
  | nil => exact .ok (List.nil_subset _)
  | cons file rest ih =>
    obtain ⟨path, fault | content⟩ := file
    · exact .error _
    · rw [commitFiles, commitFiles]
      generalize commitFiles f lead ignored rest = few at ih ⊢
      generalize commitFiles g lead ignored rest = many at ih ⊢
      cases ih with
      | error e => exact .error e
      | @ok few many hwithin =>
        dsimp only
        split
        · rename_i haccepts
          rw [Bool.and_eq_true] at haccepts
          rw [if_pos (Bool.and_eq_true _ _ ▸ ⟨haccepts.1, hf.accepts (Int.le_refl _) haccepts.2⟩)]
          exact .ok (List.cons_subset_cons _ hwithin)
        · split
          · exact .ok (List.subset_cons_of_subset _ hwithin)
          · exact .ok hwithin

/-- Some of the files, and the same revision. -/
def ShowsWithin {β : Type} (a b : List ScannedFile × β) : Prop := Within a.1 b.1 ∧ a.2 = b.2

variable {ws ws' : Workspace} {o o' : ScanOptions}

theorem worktreePrefix_grown (h : Grown ws.tree ws'.tree) (cwd worktree root : Bytes) :
    worktreePrefix ws'.tree cwd worktree root = worktreePrefix ws.tree cwd worktree root := by
  unfold worktreePrefix resolvePath
  rw [h.resolve, h.resolve]

theorem headFiles_fewer (hf : f.Narrows g) (h : Grown ws.tree ws'.tree) {root : Bytes}
    (hrepo : openRepository ws' root = openRepository ws root) :
    Agree ShowsWithin (headFiles ws' root f) (headFiles ws root g) := by
  unfold headFiles
  simp only [hrepo, worktreePrefix_grown h]
  -- up to the commit the two listings are the same
  refine Agree.bind (Agree.refl Eq.refl _) ?_
  rintro ⟨repo, worktree⟩ _ rfl
  refine Agree.bind (Agree.refl Eq.refl _) ?_
  rintro lead _ rfl
  have hfiles (ignored : Bytes → Bool) (c : Commit) :
      Agree ShowsWithin
        (commitFiles f lead ignored (c.top.files []) >>= fun files =>
          pure (sortFiles files, revision repo c))
        (commitFiles g lead ignored (c.top.files []) >>= fun files =>
          pure (sortFiles files, revision repo c)) :=
    (commitFiles_fewer hf lead ignored _).bind fun _ _ hwithin => .ok ⟨hwithin.sortFiles, rfl⟩
  dsimp only
  split
  · exact .error _
  · split
    · exact .error _
    · exact .error _
    · split
      · exact hfiles _ _
      · exact Agree.bind (Agree.refl Eq.refl _) fun ignored _ hsame => hsame ▸ hfiles ignored _

/-! ### Scans -/

theorem listDirectory_fewer (hf : f.Narrows g) (h : Grown ws.tree ws'.tree) (root : Bytes) :
    Agree Within (listDirectory ws'.tree root f) (listDirectory ws.tree root g) :=
  (h.lstat root).swap.map fun _ _ hgrown => filesBelow_fewer hf hgrown

theorem list_fewer (hroot : o'.root = o.root) (hgit : o'.git = o.git) (h : Grown ws.tree ws'.tree)
    (hrepo : o.git = true → openRepository ws' o.root = openRepository ws o.root)
    (hfilter : Agree Filter.Narrows
      (Filter.ofDirectory ws'.tree o'.root o'.patterns o'.excluded o'.maxFileBytes)
      (Filter.ofDirectory ws.tree o.root o.patterns o.excluded o.maxFileBytes)) :
    Agree ShowsWithin (list ws' o') (list ws o) := by
  unfold list
  refine Agree.bind (hfilter.mapError _) ?_
  intro f g hf
  rw [hgit, hroot]
  split
  · rename_i hhead
    refine Agree.bind ((headFiles_fewer hf h (hrepo hhead)).mapError _) ?_
    rintro ⟨few, revision⟩ ⟨many, _⟩ ⟨hwithin, rfl⟩
    exact .ok ⟨hwithin, rfl⟩
  · refine Agree.bind ((listDirectory_fewer hf h o.root).mapError _) ?_
    intro few many hwithin
    exact .ok ⟨hwithin, rfl⟩

theorem list_disk {text : Bytes} {e : Entry} (hgit : o.git = false)
    (htext : ws.tree.read (Path.join o.root Filter.ignoreFileName) = .ok text)
    (hroot : ws.tree.lstat o.root = .ok e) :
    list ws o = .ok (filesBelow ⟨o.patterns, ignoredBy (o.excluded ++ Filter.lines text),
      o.maxFileBytes⟩ e, none) := by
  unfold list listDirectory
  rw [Filter.ofDirectory, htext, hroot, hgit]
  rfl

/-- **Listings follow the options.** A scan fails as before or shows no path that it did not show,
once a line that takes nothing back is put anywhere among the excluded ones or into the ignore file,
which may be one of the files that are scanned. It shows every path that it showed once there are
more patterns, a greater limit or none. -/
theorem listing_monotone (ws : Workspace) (o : ScanOptions) :
    (∀ a b line, o.excluded = a ++ b → IgnoreLine.takesBack line = false →
      Agree ShowsWithin (list ws { o with excluded := a ++ line :: b }) (list ws o)) ∧
    (∀ ws' text text' a b line, Grown ws.tree ws'.tree →
      (o.git = true → openRepository ws' o.root = openRepository ws o.root) →
      ws.tree.read (Path.join o.root Filter.ignoreFileName) = .ok text →
      ws'.tree.read (Path.join o.root Filter.ignoreFileName) = .ok text' →
      Filter.lines text = a ++ b → Filter.lines text' = a ++ line :: b →
      IgnoreLine.takesBack line = false →
      Agree ShowsWithin (list ws' o) (list ws o)) ∧
    (∀ patterns, o.patterns ⊆ patterns →
      Agree ShowsWithin (list ws o) (list ws { o with patterns := patterns })) ∧
    (∀ limit, (0 < o.maxFileBytes ∧ o.maxFileBytes ≤ limit) ∨ limit ≤ 0 →
      Agree ShowsWithin (list ws o) (list ws { o with maxFileBytes := limit })) := by
  have hsame : Grown ws.tree ws.tree := Grown.refl _
  refine ⟨?_, ?_, ?_, ?_⟩
  · intro a b line hexcluded hplain
    refine list_fewer rfl rfl hsame (fun _ => rfl) (Filter.narrows_ofDirectory fun more => ?_)
    refine ⟨fun _ => id, fun path hpath => ?_, fun hpos => ⟨hpos, Int.le_refl _⟩⟩
    rw [hexcluded, List.append_assoc] at hpath
    rw [List.append_assoc, List.cons_append]
    exact ignoredBy_insert hplain hpath
  · intro ws' text text' a b line hgrown hrepo htext htext' hlines hlines' hplain
    refine list_fewer rfl rfl hgrown hrepo ?_
    rw [Filter.ofDirectory, Filter.ofDirectory, htext, htext']
    refine .ok ⟨fun _ => id, fun path hpath => ?_, fun hpos => ⟨hpos, Int.le_refl _⟩⟩
    dsimp only at hpath ⊢
    rw [hlines, ← List.append_assoc] at hpath
    rw [hlines', ← List.append_assoc]
    exact ignoredBy_insert hplain hpath
  · intro patterns hpatterns
    refine list_fewer rfl rfl hsame (fun _ => rfl) (Filter.narrows_ofDirectory fun more => ?_)
    exact ⟨fun pattern hp => hpatterns hp, fun _ => id, fun hpos => ⟨hpos, Int.le_refl _⟩⟩
  · intro limit hlimit
    refine list_fewer rfl rfl hsame (fun _ => rfl) (Filter.narrows_ofDirectory fun more => ?_)
    refine ⟨fun _ => id, fun _ => id, fun hpos => ?_⟩
    dsimp only at hpos ⊢
    omega

/-- A file that the ignore file takes back stays the only one, whatever the four changes are. -/
theorem listing_monotone_taken_back :
    let entries (text : String) : List (Bytes × Entry) :=
      [(Filter.ignoreFileName, .file (Bytes.ofString text)), (Bytes.ofString "a.py", .file [0x61]),
        (Bytes.ofString "b.py", .file [0x62])]
    let ws : Workspace := ⟨.dir [(Bytes.ofString "r", .dir (entries "!b.py"))], []⟩
    let ws' : Workspace := ⟨.dir [(Bytes.ofString "r", .dir (entries "!b.py\nb*"))], []⟩
    let o : ScanOptions :=
      ⟨Bytes.ofString "/r", [Bytes.ofString "*.py"], [Bytes.ofString "*.py"], false, 0, 8, []⟩
    list ws o = .ok ([⟨Bytes.ofString "b.py", .ok [0x62]⟩], none) ∧
      Agree ShowsWithin
        (list ws { o with excluded := [Bytes.ofString "b*", Bytes.ofString "*.py"] }) (list ws o) ∧
      Agree ShowsWithin (list ws' o) (list ws o) ∧
      Agree ShowsWithin (list ws o)
        (list ws { o with patterns := [Bytes.ofString "*", Bytes.ofString "*.py"] }) ∧
      Agree ShowsWithin (list ws o) (list ws { o with maxFileBytes := 0 }) := by
  intro entries ws ws' o
  have htext : ws.tree.read (Path.join o.root Filter.ignoreFileName) =
      .ok (Bytes.ofString "!b.py") := by cbv
  have htext' : ws'.tree.read (Path.join o.root Filter.ignoreFileName) =
      .ok (Bytes.ofString "!b.py\nb*") := by cbv
  have hgrown : Grown ws.tree ws'.tree := by
    have hentries := @Grown.dir
      [(Filter.ignoreFileName, .file (Bytes.ofString "!b.py"), .file (Bytes.ofString "!b.py\nb*")),
        (Bytes.ofString "a.py", .file [0x61], .file [0x61]),
        (Bytes.ofString "b.py", .file [0x62], .file [0x62])]
      (by simp only [List.forall_mem_cons]
          exact ⟨.file (by decide +kernel), .refl _, .refl _, by simp⟩)
    exact @Grown.dir [(Bytes.ofString "r", _, _)] (List.forall_mem_singleton.mpr hentries)
  obtain ⟨hexcluded, hignored, hpatterns, hlimit⟩ := listing_monotone ws o
  refine ⟨?_, hexcluded [] [Bytes.ofString "*.py"] (Bytes.ofString "b*") rfl (by decide +kernel),
    hignored ws' _ _ [Bytes.ofString "!b.py"] [] (Bytes.ofString "b*") hgrown (by simp [o]) htext
      htext' (by decide +kernel) (by decide +kernel) (by decide +kernel), hpatterns _ ?_,
    hlimit 0 (.inr (by omega))⟩
  · rw [list_disk rfl htext (by cbv : ws.tree.lstat o.root = .ok (.dir (entries "!b.py"))),
      filesBelow, filesIn, filesAt, if_neg (by decide +kernel), filesIn, filesAt,
      if_neg (by decide +kernel), filesIn, filesAt, if_pos (by decide +kernel), filesIn]
    simp [sortFiles, below]
  · exact List.subset_cons_self _ _

/-- A limit above zero leaves out a file that the limit zero, which is none, lets in. -/
theorem listing_monotone_lifted :
    let code := Bytes.ofString "class A {}\n"
    let ws : Workspace := ⟨.dir [(Bytes.ofString "r", .dir
      [(Filter.ignoreFileName, .file []), (Bytes.ofString "A.java", .file code)])], []⟩
    let o (limit : Int) : ScanOptions :=
      ⟨Bytes.ofString "/r", [Bytes.ofString "*.java"], [], false, 0, limit, []⟩
    list ws (o 0) = .ok ([⟨Bytes.ofString "A.java", .ok code⟩], none) ∧
      list ws (o 5) = .ok ([], none) ∧
      ¬ ∀ limit limit' : Int, limit ≤ limit' →
        Agree ShowsWithin (list ws (o limit)) (list ws (o limit')) := by
  intro code ws o
  have htext (limit : Int) :
      ws.tree.read (Path.join (o limit).root Filter.ignoreFileName) = .ok [] := by cbv
  have hroot (limit : Int) : ws.tree.lstat (o limit).root = .ok (.dir
      [(Filter.ignoreFileName, .file []), (Bytes.ofString "A.java", .file code)]) := by cbv
  have hzero : list ws (o 0) = .ok ([⟨Bytes.ofString "A.java", .ok code⟩], none) := by
    rw [list_disk rfl (htext 0) (hroot 0), filesBelow, filesIn, filesAt, if_neg (by decide +kernel),
      filesIn, filesAt, if_pos (by decide +kernel), filesIn]
    simp [sortFiles, below]
  have hfive : list ws (o 5) = .ok ([], none) := by
    rw [list_disk rfl (htext 5) (hroot 5), filesBelow, filesIn, filesAt, if_neg (by decide +kernel),
      filesIn, filesAt, if_neg (by decide +kernel), filesIn]
    simp [sortFiles]
  refine ⟨hzero, hfive, fun hmono => ?_⟩
  have hfewer := hmono 0 5 (by decide)
  rw [hzero, hfive] at hfewer
  cases hfewer with
  | ok hshows => simpa [Within] using hshows.1

end Scan

end ClassOutline
