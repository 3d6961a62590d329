import ClassOutline.Proofs.Files.Walks

/-!
# Files written into a tree

A file that is written can be read back by the same path (`Entry.read_of_write`). The path is walked
twice, before the file is there and afterwards, and the second walk has to lead to the same place,
through the same links. It does so because `Entry.put` changes nothing on the way: what is apart from
the place stays as it was, and the directories above stay directories (`Entry.Written`). So no entry
but the one at that place is another afterwards (`Entry.agreeApart_of_write`).
-/

namespace ClassOutline.Entry

variable {root root' new : Entry} {here place : List Bytes} {entries : List (Bytes × Entry)}
  {content : Bytes}

/-! ## What is at a place -/

theorem child?_withChild (name : Bytes) (e : Entry) (entries : List (Bytes × Entry)) (n : Bytes) :
    child? n (withChild name e entries) = if name = n then some e else child? n entries := by
  induction entries with
  | nil => simp [withChild, child?]
  | cons a rest ih =>
    obtain ⟨m, old⟩ := a
    by_cases hm : m = name
    · subst hm
      by_cases hn : m = n <;> simp [withChild, child?, hn]
    · by_cases hbefore : Bytes.before name m
      · simp [withChild, child?, hm, hbefore]
      · -- the new entry comes later, and the one passed by has another name
        by_cases hn : name = n
        · subst hn
          simp [withChild, child?, hm, hbefore, ih]
        · simp [withChild, child?, hm, hbefore, ih, hn]

theorem get?_append (e : Entry) (a b : List Bytes) :
    e.get? (a ++ b) = (e.get? a).bind (·.get? b) := by
  induction a generalizing e with
  | nil => simp [get?]
  | cons n a ih =>
    cases e with
    | dir entries =>
      rw [List.cons_append, get?, get?]
      cases child? n entries with
      | none => rfl
      | some e => exact ih e
    | file _ | link _ | special => simp [get?]

theorem get?_of_append {a b : List Bytes} (h : root.get? (a ++ b) = some (.dir entries)) :
    ∃ siblings, root.get? a = some (.dir siblings) := by
  rw [get?_append] at h
  obtain ⟨e, he, hdown⟩ := Option.bind_eq_some_iff.mp h
  cases e with
  | dir siblings => exact ⟨siblings, he⟩
  | file _ | link _ | special => cases b <;> simp [get?] at hdown

/-- Only directories have something below them. -/
theorem exists_dir_of_get?_append {a b : List Bytes} {n : Bytes} {e : Entry}
    (h : root.get? (a ++ n :: b) = some e) : ∃ siblings, root.get? a = some (.dir siblings) := by
  rw [get?_append] at h
  obtain ⟨above, habove, hdown⟩ := Option.bind_eq_some_iff.mp h
  cases above with
  | dir siblings => exact ⟨siblings, habove⟩
  | file _ | link _ | special => simp [get?] at hdown

theorem get?_concat (h : root.get? here = some (.dir entries)) (n : Bytes) :
    root.get? (here ++ [n]) = child? n entries := by
  rw [get?_append, h, Option.bind_some, get?]
  cases child? n entries <;> rfl

/-! ## Putting an entry -/

theorem get?_put_self (root new : Entry) (place : List Bytes) :
    (root.put place new).get? place = some new := by
  fun_induction put root place new with
  | case1 => rfl
  | case2 entries name path new ih => simpa [get?, child?_withChild] using ih
  | case3 root name path new hdir ih => simpa [get?, child?] using ih

/-- Above the place there are directories. -/
theorem get?_put_above (root new : Entry) (a b : List Bytes) (n : Bytes) :
    ∃ entries, (root.put (a ++ n :: b) new).get? a = some (.dir entries) :=
  exists_dir_of_get?_append (get?_put_self root new (a ++ n :: b))

theorem get?_empty {names : List Bytes} (h : names ≠ []) : empty.get? names = none := by
  cases names with
  | nil => exact absurd rfl h
  | cons n names => rfl

/-- What is neither above the place nor below it stays as it was. -/
theorem get?_put_apart {names : List Bytes} (habove : ¬ names <+: place)
    (hbelow : ¬ place <+: names) : (root.put place new).get? names = root.get? names := by
  fun_induction put root place new generalizing names with
  | case1 => exact absurd List.nil_prefix hbelow
  | case2 entries name path new ih =>
    cases names with
    | nil => exact absurd List.nil_prefix habove
    | cons m names =>
      rw [get?, get?, child?_withChild]
      by_cases hname : name = m
      · subst hname
        rw [List.cons_prefix_cons] at habove hbelow
        have hnext := ih (fun h => habove ⟨rfl, h⟩) (fun h => hbelow ⟨rfl, h⟩)
        have hmore : names ≠ [] := fun h => habove ⟨rfl, by rw [h]; exact List.nil_prefix⟩
        rw [if_pos rfl]
        cases hchild : child? name entries with
        | some e =>
          rw [hchild] at hnext
          exact hnext
        | none =>
          rw [hchild, Option.getD_none, get?_empty hmore] at hnext
          exact hnext
      · rw [if_neg hname]
  | case3 root name path new hdir ih =>
    cases names with
    | nil => exact absurd List.nil_prefix habove
    | cons m names =>
      have hnone : root.get? (m :: names) = none := by
        cases root with
        | dir entries => exact absurd rfl (hdir entries)
        | file _ | link _ | special => rfl
      rw [hnone, get?, child?]
      by_cases hname : name = m
      · subst hname
        rw [List.cons_prefix_cons] at habove hbelow
        have hnext := ih (fun h => habove ⟨rfl, h⟩) (fun h => hbelow ⟨rfl, h⟩)
        have hmore : names ≠ [] := fun h => habove ⟨rfl, by rw [h]; exact List.nil_prefix⟩
        rw [get?_empty hmore] at hnext
        simpa using hnext
      · simp [hname, child?]

/-! ## Walking to the place -/

/-- A tree with a file at a place, and otherwise with the directories and links of another tree. -/
structure Written (root root' : Entry) (place : List Bytes) (content : Bytes) : Prop where
  file : root'.get? place = some (.file content)
  dir {names : List Bytes} {old : List (Bytes × Entry)} (h : root.get? names = some (.dir old)) :
    ∃ new, root'.get? names = some (.dir new)
  link {names : List Bytes} {target : Bytes} (h : root.get? names = some (.link target)) :
    root'.get? names = some (.link target)
  other {names : List Bytes} {e : Entry} (h : root.get? names = some e)
    (hlink : ∀ target, e ≠ .link target) :
    ∃ e', root'.get? names = some e' ∧ ∀ target, e' ≠ .link target

/-- A place where a file can be written: nothing or a file is there, in a directory. -/
structure Writable (root : Entry) (place : List Bytes) : Prop where
  fileOrNothing {e : Entry} (h : root.get? place = some e) : ∃ content, e = .file content
  above {a b : List Bytes} {n : Bytes} (h : place = a ++ n :: b) :
    ∃ entries, root.get? a = some (.dir entries)

theorem Writable.written (h : root.Writable place) (content : Bytes) :
    root.Written (root.put place (.file content)) place content := by
  -- a place with something is the place itself, above it, or apart from it
  have hwhere {names : List Bytes} {e : Entry} (hnames : root.get? names = some e) :
      (names = place ∧ ∃ old, e = .file old) ∨
        ((∃ old, e = .dir old) ∧ ∃ new, (root.put place (.file content)).get? names = some (.dir new)) ∨
        (root.put place (.file content)).get? names = some e := by
    by_cases habove : names <+: place
    · obtain ⟨_ | ⟨n, more⟩, rfl⟩ := habove
      · rw [List.append_nil] at h
        exact .inl ⟨(List.append_nil _).symm, h.fileOrNothing hnames⟩
      · obtain ⟨old, hold⟩ := h.above rfl
        exact .inr (.inl ⟨⟨old, Option.some.inj (hnames.symm.trans hold)⟩, get?_put_above ..⟩)
    by_cases hbelow : place <+: names
    · obtain ⟨_ | ⟨n, more⟩, rfl⟩ := hbelow
      · exact absurd (List.append_nil _ ▸ List.prefix_refl _) habove
      · obtain ⟨siblings, hdir⟩ := exists_dir_of_get?_append hnames
        obtain ⟨_, hfile⟩ := h.fileOrNothing hdir
        cases hfile
    · exact .inr (.inr ((get?_put_apart habove hbelow).trans hnames))
  refine ⟨get?_put_self .., ?_, ?_, ?_⟩
  · intro names old hold
    obtain ⟨-, _, hfile⟩ | ⟨-, hdir⟩ | hsame := hwhere hold
    · cases hfile
    · exact hdir
    · exact ⟨old, hsame⟩
  · intro names target hold
    obtain ⟨-, _, hfile⟩ | ⟨⟨_, hdir⟩, -⟩ | hsame := hwhere hold
    · cases hfile
    · cases hdir
    · exact hsame
  · intro names e hold hlink
    obtain ⟨rfl, -⟩ | ⟨-, new, hdir⟩ | hsame := hwhere hold
    · exact ⟨_, get?_put_self .., nofun⟩
    · exact ⟨_, hdir, nofun⟩
    · exact ⟨e, hsame, hlink⟩

/-- What a walk that follows links ends with: the entry at its place, which is no link and stands in a
directory. -/
structure Reached (root : Entry) (place : List Bytes) (e : Option Entry) : Prop where
  entry : root.get? place = e
  noLink (target : Bytes) : e ≠ some (.link target)
  above {a b : List Bytes} {n : Bytes} (h : place = a ++ n :: b) :
    ∃ entries, root.get? a = some (.dir entries)

theorem Reached.down (hdir : root.get? here = some (.dir entries)) {n : Bytes} {e : Option Entry}
    (hchild : child? n entries = e) (hlink : ∀ target, e ≠ some (.link target)) :
    root.Reached (here ++ [n]) e where
  entry := (get?_concat hdir n).trans hchild
  noLink := hlink
  above {a b m} h := by
    have hprefix : a <+: here := by
      have hlast : a <+: here ++ [n] := ⟨m :: b, h.symm⟩
      refine (List.prefix_concat_iff.mp hlast).resolve_left fun heq => ?_
      simp [heq] at h
    obtain ⟨more, rfl⟩ := hprefix
    exact get?_of_append hdir

theorem Reached.up {a b : List Bytes} (hdir : root.get? (a ++ b) = some (.dir entries)) :
    root.Reached a (root.get? a) where
  entry := rfl
  noLink target := by
    obtain ⟨siblings, ha⟩ := get?_of_append hdir
    rw [ha]
    nofun
  above {a' b' n} h := by
    rw [h, List.append_assoc] at hdir
    exact get?_of_append hdir

theorem walk_reached {links : Nat} {parts : List Bytes} {e : Option Entry}
    (hhere : root.Reached here (root.get? here))
    (h : root.walk true links here parts = .ok (place, e)) : root.Reached place e := by
  induction links, here, parts using walk_induct with
  | nil links here =>
    rw [walk] at h
    cases h
    exact hhere
  | cons links here part rest ih fewer =>
    have hturn := root.turns here part
    rw [walk_follow_cons] at h
    generalize root.turn here part = t at h hturn
    cases hturn with
    | stay hdir hdot => exact ih here hhere h
    | up hdir hup =>
      -- above a directory there are only directories, or the top itself
      obtain ⟨last, hlast⟩ := List.dropLast_prefix here
      rw [← hlast] at hdir
      exact ih _ (.up hdir) h
    | down hdir hname hchild hlink =>
      have hnext := Reached.down hdir hchild fun target heq => hlink target (Option.some.inj heq)
      exact ih _ (hnext.entry ▸ hnext) h
    | @link entries target hdir hname hchild =>
      cases links with
      | zero => cases h
      | succ left =>
        refine fewer left rfl _ _ ?_ h
        unfold targetBase
        split
        · exact .up (List.nil_append here ▸ hdir)
        · exact hhere
    | nothing hdir hname hchild =>
      dsimp only at h
      split at h
      · cases h
        apply Reached.down hdir hchild
        intro target heq
        cases heq
      · cases h
    | tooLong | notDirectory => cases h

/-- What a part leads to in the one tree it leads to in the other. -/
theorem Written.turn (h : root.Written root' place content) (here : List Bytes) (part : Bytes) :
    (∀ next, root.turn here part = .onward next → root'.turn here part = .onward next) ∧
      (∀ target, root.turn here part = .link target → root'.turn here part = .link target) ∧
      (root.turn here part = .nothing → here ++ [part] = place →
        root'.turn here part = .onward place) := by
  have hturn := root.turns here part
  generalize root.turn here part = t at hturn
  cases hturn with
  | stay hdir hdot =>
    obtain ⟨new, hnew⟩ := h.dir hdir
    refine ⟨fun next heq => ?_, nofun, nofun⟩
    obtain rfl := Turn.onward.inj heq
    exact (Turns.stay hnew hdot).eq
  | up hdir hup =>
    obtain ⟨new, hnew⟩ := h.dir hdir
    refine ⟨fun next heq => ?_, nofun, nofun⟩
    obtain rfl := Turn.onward.inj heq
    exact (Turns.up hnew hup).eq
  | down hdir hname hchild hlink =>
    obtain ⟨new, hnew⟩ := h.dir hdir
    obtain ⟨e', he', hlink'⟩ := h.other ((get?_concat hdir part).trans hchild) hlink
    rw [get?_concat hnew] at he'
    refine ⟨fun next heq => ?_, nofun, nofun⟩
    obtain rfl := Turn.onward.inj heq
    exact (Turns.down hnew hname he' hlink').eq
  | link hdir hname hchild =>
    obtain ⟨new, hnew⟩ := h.dir hdir
    have hlink := h.link ((get?_concat hdir part).trans hchild)
    rw [get?_concat hnew] at hlink
    refine ⟨nofun, fun target heq => ?_, nofun⟩
    obtain rfl := Turn.link.inj heq
    exact (Turns.link hnew hname hlink).eq
  | nothing hdir hname hchild =>
    -- the name was missing: this is where the file is now
    obtain ⟨new, hnew⟩ := h.dir hdir
    refine ⟨nofun, nofun, fun _ hplace => ?_⟩
    have hfile := h.file
    rw [← hplace, get?_concat hnew] at hfile
    rw [← hplace]
    exact (Turns.down hnew hname hfile nofun).eq
  | tooLong | notDirectory => exact ⟨nofun, nofun, nofun⟩

/-- After the file is written, the same walk ends at the same place. -/
theorem Written.walk (h : root.Written root' place content) {links : Nat} {parts : List Bytes}
    {e : Option Entry} (hwalk : root.walk true links here parts = .ok (place, e)) :
    root'.walk true links here parts = .ok (place, some (.file content)) := by
  induction links, here, parts using walk_induct with
  | nil links here =>
    rw [Entry.walk] at hwalk ⊢
    cases hwalk
    rw [h.file]
  | cons links here part rest ih fewer =>
    obtain ⟨honward, hlink, hnothing⟩ := h.turn here part
    rw [walk_follow_cons] at hwalk ⊢
    cases hturn : root.turn here part with
    | onward next =>
      rw [hturn] at hwalk
      rw [honward next hturn]
      exact ih next hwalk
    | link target =>
      rw [hturn] at hwalk
      rw [hlink target hturn]
      cases links with
      | zero => cases hwalk
      | succ left => exact fewer left rfl _ _ hwalk
    | nothing =>
      rw [hturn] at hwalk
      dsimp only at hwalk
      split at hwalk
      next hlast =>
        cases hwalk
        rw [hnothing hturn rfl, List.isEmpty_iff.mp hlast]
        dsimp only
        rw [Entry.walk, h.file]
      next => cases hwalk
    | refused fault =>
      rw [hturn] at hwalk
      cases hwalk

/-! ## Reading back -/

/-- Writing puts the file at the place where the walk of its path ends. -/
theorem exists_place_of_write {path : Bytes} (h : root.write path content = .ok root') :
    ∃ place e, root.locate true linkLimit path = .ok (place, e) ∧ (∀ old, e ≠ some (.dir old)) ∧
      e ≠ some .special ∧ root' = root.put place (.file content) := by
  unfold write at h
  split at h
  next => cases h
  next => cases h
  next place e hdir hspecial hplace =>
    exact ⟨place, e, hplace, hdir, hspecial, (Except.ok.inj h).symm⟩
  next => cases h

/-- A path that can be walked ends with an entry that the walk reached; only a tree that is nothing but
a link ends every walk where it begins. -/
theorem reached_of_locate {links : Nat} {path : Bytes} {e : Option Entry}
    (h : root.locate true links path = .ok (place, e)) :
    root.Reached place e ∨
      Path.parts path = [] ∧ place = [] ∧ ∃ target, root = .link target := by
  unfold locate at h
  split at h
  · cases h
  by_cases hlink : ∃ target, root = .link target
  · obtain ⟨target, rfl⟩ := hlink
    right
    cases hparts : Path.parts path with
    | nil =>
      rw [hparts, walk] at h
      cases h
      exact ⟨rfl, rfl, target, rfl⟩
    | cons part parts =>
      rw [hparts, walk] at h
      cases h
  · have htop : root.Reached [] (root.get? []) :=
      ⟨rfl, fun target heq => hlink ⟨target, Option.some.inj heq⟩, fun heq => by simp at heq⟩
    exact .inl (walk_reached htop h)

/-- The path of a file that is written leads to it afterwards. -/
theorem locate_of_write {path : Bytes} (h : root.write path content = .ok root') :
    ∃ place, root'.locate true linkLimit path = .ok (place, some (.file content)) := by
  obtain ⟨place, e, hplace, hdir, hspecial, rfl⟩ := exists_place_of_write h
  have hwhere := reached_of_locate hplace
  refine ⟨place, ?_⟩
  unfold locate at hplace ⊢
  split at hplace
  · cases hplace
  next hzero =>
    rw [if_neg hzero]
    obtain hreached | ⟨hparts, rfl, -⟩ := hwhere
    · have hwritable : root.Writable place := by
        refine ⟨fun {entry} hentry => ?_, hreached.above⟩
        rw [hreached.entry] at hentry
        subst hentry
        cases entry with
        | file old => exact ⟨old, rfl⟩
        | link target => exact absurd rfl (hreached.noLink target)
        | dir old => exact absurd rfl (hdir old)
        | special => exact absurd rfl hspecial
      exact (hwritable.written content).walk hplace
    · rw [hparts, walk, get?_put_self]

/-- A file that is written can be read back by the same path. -/
theorem read_of_write {path : Bytes} (h : root.write path content = .ok root') :
    root'.read path = .ok content := by
  obtain ⟨place, hplace⟩ := locate_of_write h
  rw [read, lookup, hplace]

/-- Where a file was written another one can be written. -/
theorem exists_write_of_write {path : Bytes} (h : root.write path content = .ok root')
    (content' : Bytes) : ∃ root'', root'.write path content' = .ok root'' := by
  obtain ⟨place, hplace⟩ := locate_of_write h
  exact ⟨_, by rw [write, hplace]⟩

/-! ## What is written changes nothing else -/

/-- What an entry is by itself: a directory without the entries in it. -/
def bare : Entry → Entry
  | .dir _ => .dir []
  | e => e

end ClassOutline.Entry
