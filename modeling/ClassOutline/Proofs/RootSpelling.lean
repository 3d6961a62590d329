import ClassOutline.Cli.Session
import ClassOutline.Proofs.Checkout
import ClassOutline.Proofs.Files.Walks

/-!
# The path of a scanned directory

A scan is asked for by a path, and a directory has many. The settings and the ignore lines of the
directory are the same by each of them (`ProjectSettings.load_congr`, `Filter.ofDirectory_congr`), since
their files are opened, and a link on the way is followed. The files below the directory are found by
walking it, and the walk begins with the entry at the end of the path as it stands there. A link in that
place is not followed: the scan succeeds and reports no file (`Cli.run_scan_spelled`). Every path that
does not end in a link gives the same report, but for the path in it.
-/

namespace ClassOutline

open ClassOutline.Path

variable {tree : Entry} {l d : Bytes}

/-! ## What is read in a directory -/

namespace Entry

/-- Whether the entry at the end of a path is a link itself. -/
def endsInLink (root : Entry) (path : Bytes) : Bool :=
  match root.lookup false path with
  | .ok (.link _) => true
  | _ => false

/-- A file is read alike by two paths that lead to the same entry. -/
theorem read_congr (h : tree.lookup true l = tree.lookup true d) :
    (∃ content, tree.read l = .ok content ∧ tree.read d = .ok content) ∨
      ∃ action cause, tree.read l = .error ⟨action, l, cause⟩ ∧
        tree.read d = .error ⟨action, d, cause⟩ := by
  unfold read
  rw [h]
  cases tree.lookup true d with
  | error fault => exact .inr ⟨_, _, rfl, rfl⟩
  | ok e =>
    cases e with
    | file content => exact .inl ⟨content, rfl, rfl⟩
    | link _ | dir _ | special => exact .inr ⟨_, _, rfl, rfl⟩

end Entry

namespace ProjectSettings

theorem isAbsent_congr (h : tree.lookup true l = tree.lookup true d) :
    isAbsent tree l = isAbsent tree d := by
  unfold isAbsent
  rw [h]

theorem ofFile_congr (h : tree.lookup true l = tree.lookup true d) :
    (ofFile tree l).toOption = (ofFile tree d).toOption := by
  unfold ofFile
  obtain ⟨content, hl, hd⟩ | ⟨action, cause, hl, hd⟩ := Entry.read_congr h
  · rw [hl, hd]
    dsimp only
    cases ofText content <;> rfl
  · rw [hl, hd]
    rfl

/-- The settings of a directory are the same by two paths, if these lead to the same files. -/
theorem load_congr (h : ∀ name ∈ [fileName, otherFileName],
      tree.lookup true (join l name) = tree.lookup true (join d name)) :
    (load tree l).toOption = (load tree d).toOption := by
  have hfirst := h fileName (by simp)
  have hsecond := h otherFileName (by simp)
  unfold load
  dsimp only
  rw [isAbsent_congr hfirst, isAbsent_congr hsecond]
  split
  · exact ofFile_congr hfirst
  split
  · exact ofFile_congr hsecond
  · rfl

end ProjectSettings

/-- The filter of a directory is the same by two paths, if these lead to the same ignore file. -/
theorem Filter.ofDirectory_congr
    (h : tree.lookup true (join l ignoreFileName) = tree.lookup true (join d ignoreFileName))
    (patterns excluded : List Bytes) (maxBytes : Int) :
    (ofDirectory tree l patterns excluded maxBytes).toOption =
      (ofDirectory tree d patterns excluded maxBytes).toOption := by
  unfold ofDirectory
  obtain ⟨content, hl, hd⟩ | ⟨action, cause, hl, hd⟩ := Entry.read_congr h
  · rw [hl, hd]
  · rw [hl, hd]
    dsimp only
    split <;> rfl

/-! ## Scans by two paths -/

theorem toOption_mapError {ε δ α : Type} (f : ε → δ) (r : Except ε α) :
    (r.mapError f).toOption = r.toOption := by
  cases r <;> rfl

/-- The report on a directory when the scan is asked for by another path. Through a link no file is
found. -/
def Report.movedTo (r : Report) (root : Bytes) (throughLink : Bool) : Report :=
  if throughLink then ⟨root, none, [], Scan.summarize []⟩ else { r with root := root }

namespace Scan

variable {ws : Workspace} {o : ScanOptions}

/-- A scan of the working tree: the filter, then the entry at the end of the path, then its files. -/
theorem run_disk (registry : Registry) (hgit : o.git = false) :
    (run registry ws o false).toOption =
      (Filter.ofDirectory ws.tree o.root o.patterns o.excluded o.maxFileBytes).toOption.bind fun f =>
        (ws.tree.lookup false o.root).toOption.map fun e =>
          let results := (filesBelow f e).map (analyzeFile registry (Language.normalizeHint o.language))
          ⟨o.root, none, results, summarize results⟩ := by
  unfold run list listDirectory Entry.lstat
  rw [hgit]
  cases Filter.ofDirectory ws.tree o.root o.patterns o.excluded o.maxFileBytes with
  | error cause => rfl
  | ok f => cases ws.tree.lookup false o.root <;> rfl

/-- The same options for two paths to one directory give the same report, but for a link at the end of
the one. -/
theorem run_spelled (registry : Registry) {entries : List (Bytes × Entry)} (hgit : o.git = false)
    (hignore : ws.tree.lookup true (join l Filter.ignoreFileName) =
      ws.tree.lookup true (join d Filter.ignoreFileName))
    (hd : ws.tree.lookup false d = .ok (.dir entries))
    (hl : (∃ target, ws.tree.lookup false l = .ok (.link target)) ∨
      ws.tree.lookup false l = .ok (.dir entries)) :
    (run registry ws { o with root := l } false).toOption =
      (run registry ws { o with root := d } false).toOption.map
        (·.movedTo l (ws.tree.endsInLink l)) := by
  rw [run_disk registry (o := { o with root := l }) hgit,
    run_disk registry (o := { o with root := d }) hgit]
  dsimp only
  rw [Filter.ofDirectory_congr hignore, hd]
  unfold Entry.endsInLink
  cases (Filter.ofDirectory ws.tree d o.patterns o.excluded o.maxFileBytes).toOption with
  | none => rfl
  | some f =>
    obtain ⟨target, hlink⟩ | hdir := hl
    · -- the walk begins at the link and ends there
      rw [hlink]
      rfl
    · rw [hdir]
      rfl

end Scan

namespace Cli

variable {h : Host} {values values' : FlagValues} {args : List Bytes} {input : Input}

/-- The report that a scan of a directory is asked for. -/
def reportOf (h : Host) (values : FlagValues) (root : Bytes) : Except RunError Report :=
  scanDirectory h.workspace root (flagSettings values (values.isOn "git"))

/-- A run that scans a directory prints its report. -/
theorem run_scan_directory {root : Bytes} (hcall : Call.ofArgs args = .ok (.run .scan values))
    (hrepo : values.text "repo" [] = [])
    (hroot : dirPath h (values.text "path" dot) = .ok root) :
    run h args input =
      (.ofExcept (reportOf h values root >>= fun r => formatted (formatOf values) r.toJson), h) := by
  rw [run, hcall]
  dsimp only
  rw [runScan, hrepo, scanPath, hroot]
  rfl

/-- The path of a directory that can be used is made of names, and it leads to the directory. -/
theorem exists_dir_of_dirPath {path root : Bytes} (hcwd : isAbsolute h.cwd = true)
    (hroot : dirPath h path = .ok root) :
    ∃ names, (∀ n ∈ names, IsName n) ∧ root = absolute names ∧ ∃ place entries,
      h.workspace.tree.locate true Entry.linkLimit root = .ok (place, some (.dir entries)) := by
  obtain ⟨names, hnames, hfull⟩ := exists_names_of_seenFrom hcwd path
  refine ⟨names, hnames, ?_⟩
  unfold dirPath at hroot
  split at hroot
  · cases hroot
  · dsimp only at hroot
    rw [hfull] at hroot
    split at hroot
    next => cases hroot
    next e hstat =>
      split at hroot
      next hdir =>
        cases hroot
        refine ⟨rfl, ?_⟩
        unfold Entry.stat Entry.lookup at hstat
        split at hstat
        next place e' hplace =>
          obtain rfl : e' = e := Except.ok.inj hstat
          cases e' with
          | dir entries => exact ⟨place, entries, hplace⟩
          | file _ | link _ | special => cases hdir
        next => cases hstat
        next => cases hstat
      next => cases hroot

/-- The names of the files that a scan looks for in its directory. -/
def consulted : List Bytes :=
  [ProjectSettings.fileName, ProjectSettings.otherFileName, Filter.ignoreFileName]

theorem isName_of_mem_consulted : ∀ name ∈ consulted, IsName name := by
  decide +kernel

/-- A scan of a directory: its settings, then the scan with them. -/
theorem toOption_scanDirectory (ws : Workspace) (root : Bytes) (flags : ProjectSettings) :
    (scanDirectory ws root flags).toOption =
      (ProjectSettings.load ws.tree root).toOption.bind fun p =>
        (Scan.run .builtIn ws (scanOptions root (p.override flags)) false).toOption := by
  unfold scanDirectory
  cases ProjectSettings.load ws.tree root with
  | error cause => rfl
  | ok p => exact toOption_mapError _ _

/-- A scan of the working tree of one directory by two paths: the settings and the filter are the same,
and so are the files, unless there are none because the walk began at a link. -/
theorem scanDirectory_spelled {ws : Workspace} {flags : ProjectSettings}
    {entries : List (Bytes × Entry)}
    (hsame : ∀ name ∈ consulted,
      ws.tree.lookup true (join l name) = ws.tree.lookup true (join d name))
    (hd : ws.tree.lookup false d = .ok (.dir entries))
    (hl : (∃ target, ws.tree.lookup false l = .ok (.link target)) ∨
      ws.tree.lookup false l = .ok (.dir entries))
    (hgit : ∀ p, ProjectSettings.load ws.tree d = .ok p → (p.override flags).scan.git = false) :
    (scanDirectory ws l flags).toOption =
      (scanDirectory ws d flags).toOption.map (·.movedTo l (ws.tree.endsInLink l)) := by
  have hload : (ProjectSettings.load ws.tree l).toOption =
      (ProjectSettings.load ws.tree d).toOption := by
    apply ProjectSettings.load_congr
    intro name hname
    exact hsame name (List.mem_append_left [Filter.ignoreFileName] hname)
  have hignore := hsame Filter.ignoreFileName (by simp [consulted])
  rw [toOption_scanDirectory, toOption_scanDirectory, hload]
  cases hsettings : ProjectSettings.load ws.tree d with
  | error cause => rfl
  | ok p =>
    -- only the path differs between the options of the two scans
    exact Scan.run_spelled (o := scanOptions d (p.override flags)) .builtIn (hgit p hsettings)
      hignore hd hl

/-- The same for two paths made of names that lead to one place. -/
theorem scanDirectory_samePlace {ws : Workspace} {flags : ProjectSettings} {names names' : List Bytes}
    {place : List Bytes} {entries : List (Bytes × Entry)} (hnames : ∀ n ∈ names, IsName n)
    (hnames' : ∀ n ∈ names', IsName n)
    (hplace : ws.tree.locate true Entry.linkLimit (absolute names) = .ok (place, some (.dir entries)))
    (hplace' : ws.tree.locate true Entry.linkLimit (absolute names') =
      .ok (place, some (.dir entries)))
    (hplain : ws.tree.endsInLink (absolute names') = false)
    (hgit : ∀ p, ProjectSettings.load ws.tree (absolute names') = .ok p →
      (p.override flags).scan.git = false)
    (hring : ∀ name ∈ consulted,
      ws.tree.lookup true (join (absolute names) name) = .error .linkRing ↔
        ws.tree.lookup true (join (absolute names') name) = .error .linkRing) :
    (scanDirectory ws (absolute names) flags).toOption =
      (scanDirectory ws (absolute names') flags).toOption.map
        (·.movedTo (absolute names) (ws.tree.endsInLink (absolute names))) := by
  have hentry : ws.tree.lookup false (absolute names') = .ok (.dir entries) := by
    refine (Entry.lookup_noFollow hplace').resolve_left ?_
    rintro ⟨target, hlink⟩
    rw [Entry.endsInLink, hlink] at hplain
    cases hplain
  apply scanDirectory_spelled _ hentry (Entry.lookup_noFollow hplace) hgit
  intro name hname
  exact Entry.lookup_join_congr hnames hnames' (isName_of_mem_consulted name hname) hplace hplace'
    (hring name hname)

/-! ## Runs with the same flags -/

theorem FlagValues.text_congr {name : String} (h : values.get? name = values'.get? name)
    (absent : Bytes) : values.text name absent = values'.text name absent := by
  rw [text, text, h]

/-- The settings of the flags do not depend on the path. -/
theorem flagSettings_congr (hflags : ∀ name, name ≠ "path" → values.get? name = values'.get? name)
    (git : Bool) : flagSettings values git = flagSettings values' git := by
  unfold flagSettings FlagValues.number
  rw [FlagValues.text_congr (hflags "language" (by decide)), hflags "concurrency" (by decide),
    hflags "max-bytes" (by decide)]

/-- **A scan does not depend on how its directory is spelled, but for a link at the end.** Two runs with
the same flags are given two paths to one directory, the second of which does not end in a link, and
read the working tree. They print the reports of these two scans, and either both scans fail or the
reports are the same but for the path in them: unless the first path ends in a link, and then its report
has no file. The files that a scan looks for in its directory may be links, and so one of the paths may
have too many links for them and the other not; that is left out here. -/
theorem run_scan_spelled (h : Host) (input : Input) {args' : List Bytes}
    (hcwd : isAbsolute h.cwd = true) (hcall : Call.ofArgs args = .ok (.run .scan values))
    (hcall' : Call.ofArgs args' = .ok (.run .scan values'))
    (hflags : ∀ name, name ≠ "path" → values.get? name = values'.get? name)
    (hrepo : values.text "repo" [] = [])
    (hl : dirPath h (values.text "path" dot) = .ok l)
    (hd : dirPath h (values'.text "path" dot) = .ok d)
    (hsame : h.workspace.tree.locate true Entry.linkLimit l =
      h.workspace.tree.locate true Entry.linkLimit d)
    (hplain : h.workspace.tree.endsInLink d = false)
    (hgit : values.isOn "git" = false)
    (hfile : ∀ p, ProjectSettings.load h.workspace.tree d = .ok p → p.scan.git = false)
    (hring : ∀ name ∈ consulted,
      h.workspace.tree.lookup true (join l name) = .error .linkRing ↔
        h.workspace.tree.lookup true (join d name) = .error .linkRing) :
    run h args input =
        (.ofExcept (reportOf h values l >>= fun r => formatted (formatOf values) r.toJson), h) ∧
      run h args' input =
        (.ofExcept (reportOf h values' d >>= fun r => formatted (formatOf values') r.toJson), h) ∧
      formatOf values = formatOf values' ∧
      (reportOf h values l).toOption =
        (reportOf h values' d).toOption.map (·.movedTo l (h.workspace.tree.endsInLink l)) := by
  have hrepo' : values'.text "repo" [] = [] := by
    rw [← FlagValues.text_congr (hflags "repo" (by decide))]
    exact hrepo
  have hgit' : values'.isOn "git" = false := by
    rw [← hgit, FlagValues.isOn, FlagValues.isOn, hflags "git" (by decide)]
  refine ⟨run_scan_directory hcall hrepo hl, run_scan_directory hcall' hrepo' hd,
    FlagValues.text_congr (hflags "format" (by decide)) _, ?_⟩
  obtain ⟨names, hnames, rfl, place, entries, hplace⟩ := exists_dir_of_dirPath hcwd hl
  obtain ⟨names', hnames', rfl, -⟩ := exists_dir_of_dirPath hcwd hd
  unfold reportOf
  rw [hgit, hgit', ← flagSettings_congr hflags]
  apply scanDirectory_samePlace hnames hnames' hplace (hsame.symm.trans hplace) hplain _ hring
  -- neither the file nor the flags ask for the last commit
  intro p hp
  show (p.scan.git || false) = false
  rw [hfile p hp]
  rfl

/-! ## A link in the place of a directory -/

/-- The entries of a directory with one file of code. -/
def linkedEntries : List (Bytes × Entry) :=
  [(Bytes.ofString "A.java", .file (Bytes.ofString "class A {}\n"))]

/-- That directory and a link to it. -/
def linkedHost : Host where
  workspace :=
    ⟨.dir [(Bytes.ofString "link", .link (Bytes.ofString "real")),
      (Bytes.ofString "real", .dir linkedEntries)], []⟩
  cwd := [slash]

/-- The flags of a scan that is only given a path. -/
def pathFlags (path : String) : FlagValues := [("path", .text (Bytes.ofString path))]

theorem get?_pathFlags (path path' : String) {name : String} (hname : name ≠ "path") :
    (pathFlags path).get? name = (pathFlags path').get? name := by
  simp [pathFlags, FlagValues.get?, hname.symm]

/-- Both paths lead to the directory. -/
theorem locate_linkedHost {path : String} (hpath : path ∈ ["/link", "/real"]) :
    linkedHost.workspace.tree.locate true Entry.linkLimit (Bytes.ofString path) =
      .ok ([Bytes.ofString "real"], some (.dir linkedEntries)) := by
  simp only [List.mem_cons, List.not_mem_nil, or_false] at hpath
  obtain rfl | rfl := hpath <;> cbv

/-- The directory has neither settings nor an ignore file. -/
theorem lookup_linkedHost {path : String} (hpath : path ∈ ["/link", "/real"]) {name : Bytes}
    (hname : name ∈ consulted) :
    linkedHost.workspace.tree.lookup true (join (Bytes.ofString path) name) = .error .missing := by
  simp only [List.mem_cons, List.not_mem_nil, or_false] at hpath
  simp only [consulted, List.mem_cons, List.not_mem_nil, or_false] at hname
  obtain rfl | rfl := hpath <;> obtain rfl | rfl | rfl := hname <;> cbv

theorem lookup_noFollow_link :
    linkedHost.workspace.tree.lookup false (Bytes.ofString "/link") =
      .ok (.link (Bytes.ofString "real")) := by
  have hparts : parts (Bytes.ofString "/link") = [Bytes.ofString "link"] := by cbv
  have hturn : linkedHost.workspace.tree.turn [] (Bytes.ofString "link") =
      .link (Bytes.ofString "real") := by cbv
  rw [Entry.lookup, Entry.locate, if_neg (by decide +kernel), hparts, Entry.walk_cons, hturn]
  rfl

theorem lookup_noFollow_real :
    linkedHost.workspace.tree.lookup false (Bytes.ofString "/real") =
      .ok (.dir linkedEntries) := by
  cbv

theorem load_linkedHost :
    ProjectSettings.load linkedHost.workspace.tree (Bytes.ofString "/real") = .ok .default := by
  unfold ProjectSettings.load ProjectSettings.isAbsent
  dsimp only
  rw [lookup_linkedHost (by simp) (by simp [consulted]),
    lookup_linkedHost (by simp) (by simp [consulted])]
  rfl

/-- The report through the link is the one on the directory, but that it has no file. -/
theorem run_scan_spelled_link :
    let args (path : String) := ["scan", "--path", path].map Bytes.ofString
    let l := Bytes.ofString "/link"
    let d := Bytes.ofString "/real"
    Call.ofArgs (args "link") = .ok (.run .scan (pathFlags "link")) ∧
      Call.ofArgs (args "real") = .ok (.run .scan (pathFlags "real")) ∧
      dirPath linkedHost (Bytes.ofString "link") = .ok l ∧
      dirPath linkedHost (Bytes.ofString "real") = .ok d ∧
      linkedHost.workspace.tree.endsInLink l = true ∧
      (reportOf linkedHost (pathFlags "link") l).toOption =
        (reportOf linkedHost (pathFlags "real") d).toOption.map (·.movedTo l true) := by
  intro args l d
  have hcall : Call.ofArgs (args "link") = .ok (.run .scan (pathFlags "link")) := by rfl
  have hcall' : Call.ofArgs (args "real") = .ok (.run .scan (pathFlags "real")) := by rfl
  have hl : dirPath linkedHost (Bytes.ofString "link") = .ok l := by cbv
  have hd : dirPath linkedHost (Bytes.ofString "real") = .ok d := by cbv
  have hlink : linkedHost.workspace.tree.endsInLink l = true := by
    rw [Entry.endsInLink, lookup_noFollow_link]
  have hplain : linkedHost.workspace.tree.endsInLink d = false := by
    rw [Entry.endsInLink, lookup_noFollow_real]
  have hsame : linkedHost.workspace.tree.locate true Entry.linkLimit l =
      linkedHost.workspace.tree.locate true Entry.linkLimit d :=
    (locate_linkedHost (by simp)).trans (locate_linkedHost (by simp)).symm
  have hfile : ∀ p, ProjectSettings.load linkedHost.workspace.tree d = .ok p →
      p.scan.git = false := by
    intro p hp
    obtain rfl := Except.ok.inj (load_linkedHost.symm.trans hp)
    rfl
  have hring : ∀ name ∈ consulted,
      linkedHost.workspace.tree.lookup true (join l name) = .error .linkRing ↔
        linkedHost.workspace.tree.lookup true (join d name) = .error .linkRing := by
    intro name hname
    rw [lookup_linkedHost (by simp) hname, lookup_linkedHost (by simp) hname]
  obtain ⟨-, -, -, hreport⟩ := run_scan_spelled linkedHost (.ok []) rfl hcall hcall'
    (fun _ hname => get?_pathFlags _ _ hname) rfl hl hd hsame hplain rfl hfile hring
  rw [hlink] at hreport
  exact ⟨hcall, hcall', hl, hd, hlink, hreport⟩

theorem ofDirectory_linkedHost (patterns excluded : List Bytes) (maxBytes : Int) :
    Filter.ofDirectory linkedHost.workspace.tree (Bytes.ofString "/real") patterns excluded maxBytes =
      .ok ⟨patterns, ignoredBy excluded, maxBytes⟩ := by
  rw [Filter.ofDirectory, Entry.read, lookup_linkedHost (by simp) (by simp [consulted])]
  rfl

/-- By its own path the directory has one file. -/
theorem paths_linkedHost :
    (reportOf linkedHost (pathFlags "real") (Bytes.ofString "/real")).toOption.map
      (fun r => r.files.map (·.path)) = some [Bytes.ofString "A.java"] := by
  let f : Filter := ⟨ProjectSettings.default.included, ignoredBy ProjectSettings.default.excluded,
    ProjectSettings.default.scan.maxFileBytes⟩
  have hfiles : (Scan.filesBelow f (.dir linkedEntries)).map (·.path) =
      [Bytes.ofString "A.java"] := by
    rw [Scan.filesBelow, linkedEntries, Scan.filesIn, Scan.filesAt, if_pos (by decide +kernel),
      Scan.filesIn]
    simp [Scan.sortFiles, Scan.below]
  unfold reportOf
  rw [toOption_scanDirectory, load_linkedHost]
  show Option.map _ (Scan.run .builtIn linkedHost.workspace _ false).toOption = _
  rw [Scan.run_disk .builtIn rfl]
  unfold scanOptions
  dsimp only
  rw [ofDirectory_linkedHost, lookup_noFollow_real]
  show some ((((Scan.filesBelow f (.dir linkedEntries)).map _).map FileResult.path)) = _
  rw [Scan.map_path_analyzeFile, hfiles]

/-- The directory has one file by its own path, and none by the path of the link, which leads there as
well. -/
theorem run_scan_spelled_lost :
    let args (path : String) := ["scan", "--path", path].map Bytes.ofString
    let l := Bytes.ofString "/link"
    let d := Bytes.ofString "/real"
    Call.ofArgs (args "link") = .ok (.run .scan (pathFlags "link")) ∧
      Call.ofArgs (args "real") = .ok (.run .scan (pathFlags "real")) ∧
      dirPath linkedHost (Bytes.ofString "link") = .ok l ∧
      dirPath linkedHost (Bytes.ofString "real") = .ok d ∧
      linkedHost.workspace.tree.locate true Entry.linkLimit l =
        linkedHost.workspace.tree.locate true Entry.linkLimit d ∧
      ∃ r r', reportOf linkedHost (pathFlags "link") l = .ok r ∧
        reportOf linkedHost (pathFlags "real") d = .ok r' ∧
        r.files = [] ∧ r'.files.map (·.path) = [Bytes.ofString "A.java"] ∧ r.files ≠ r'.files := by
  intro args l d
  refine ⟨by rfl, by rfl, by cbv, by cbv,
    (locate_linkedHost (by simp)).trans (locate_linkedHost (by simp)).symm, ?_⟩
  have hreport : (reportOf linkedHost (pathFlags "link") l).toOption =
      (reportOf linkedHost (pathFlags "real") d).toOption.map
        (·.movedTo l (linkedHost.workspace.tree.endsInLink l)) := by
    apply scanDirectory_spelled _ lookup_noFollow_real (.inl ⟨_, lookup_noFollow_link⟩)
    · intro p hp
      obtain rfl := Except.ok.inj (load_linkedHost.symm.trans hp)
      rfl
    · intro name hname
      rw [lookup_linkedHost (by simp) hname, lookup_linkedHost (by simp) hname]
  have hfiles := paths_linkedHost
  have hlink : linkedHost.workspace.tree.endsInLink l = true := by
    rw [Entry.endsInLink, lookup_noFollow_link]
  rw [hlink] at hreport
  cases hreal : reportOf linkedHost (pathFlags "real") d with
  | error e =>
    rw [hreal] at hfiles
    cases hfiles
  | ok r' =>
    rw [hreal] at hfiles hreport
    have hpaths : r'.files.map (·.path) = [Bytes.ofString "A.java"] := Option.some.inj hfiles
    cases hmoved : reportOf linkedHost (pathFlags "link") l with
    | error e =>
      rw [hmoved] at hreport
      cases hreport
    | ok r =>
      rw [hmoved] at hreport
      obtain rfl : r = r'.movedTo l true := Option.some.inj hreport
      refine ⟨_, r', rfl, rfl, rfl, hpaths, fun heq => ?_⟩
      rw [← heq] at hpaths
      cases hpaths

end Cli

end ClassOutline
