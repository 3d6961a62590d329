import ClassOutline.Proofs.Files.Paths

/-!
# Walks through a file tree

What a walk does depends on its first part only by what that part means in the place where the walk has
come to (`Entry.turn`, with all the cases in `Entry.turns`). The walk then goes on with fewer parts, or it
follows a link and has fewer links to go (`Entry.walk_cons`, `Entry.walk_induct`).

A directory has many paths, since a path can lead through links. What is found below the directory
does not depend on the path that leads to it: the walk of a longer path is the walk of its beginning
and then the walk of the rest from there (`Entry.exists_walk_append`). The two differ only in how many
links are left for the rest, and the number matters only where it is too small
(`Entry.walk_links_add`). So an entry of the directory is the same by both paths, unless one of them is
refused for its links (`Entry.lookup_join_congr`).

The entry at the end of a path is another matter. Seen without following it is a link, or it is what the
path leads to (`Entry.lookup_noFollow`).
-/

namespace ClassOutline.Entry

open ClassOutline.Path

variable {root : Entry} {follow : Bool} {links : Nat} {here parts place : List Bytes}

/-! ## One part of a path -/

/-- What a part of a path means in a place. -/
inductive Turn where
  /-- The walk goes on at a place. -/
  | onward (place : List Bytes)
  /-- The part is a link. -/
  | link (target : Bytes)
  /-- The directory has no such entry. -/
  | nothing
  | refused (fault : FileFault)

/-- A part that can be the name of an entry. -/
structure NameInPath (part : Bytes) : Prop where
  ne_dot : part ≠ dot
  ne_dotDot : part ≠ dotDot
  short : ¬ 255 < part.length

/-- The meaning of a part in the place where a walk has come to. -/
def turn (root : Entry) (here : List Bytes) (part : Bytes) : Turn :=
  match root.get? here with
  | some (.dir entries) =>
    if part == dot then .onward here
    else if part == dotDot then .onward here.dropLast
    else if 255 < part.length then .refused .nameTooLong
    else
      match child? part entries with
      | none => .nothing
      | some (.link target) => .link target
      | some _ => .onward (here ++ [part])
  | _ => .refused .notDirectory

/-- The place where the target of a link is looked for. -/
def targetBase (here : List Bytes) (target : Bytes) : List Bytes :=
  if isAbsolute target then [] else here

/-- A walk does what its first part means, and no more depends on that part. -/
theorem walk_cons (root : Entry) (follow : Bool) (links : Nat) (here : List Bytes) (part : Bytes)
    (rest : List Bytes) :
    root.walk follow links here (part :: rest) =
      match root.turn here part with
      | .onward next => root.walk follow links next rest
      | .link target =>
        if rest.isEmpty && !follow then .ok (here ++ [part], some (.link target))
        else
          match links with
          | 0 => .error .linkRing
          | links + 1 => root.walk follow links (targetBase here target) (targetParts target ++ rest)
      | .nothing => if rest.isEmpty then .ok (here ++ [part], none) else .error .missing
      | .refused fault => .error fault := by
  rw [walk.eq_def, turn]
  cases root.get? here with
  | none => rfl
  | some e =>
    cases e with
    | file _ | link _ | special => rfl
    | dir entries =>
      dsimp only
      by_cases hdot : (part == dot) = true
      · simp only [hdot, if_true]
      by_cases hup : (part == dotDot) = true
      · simp only [hdot, hup, if_true, if_false, Bool.false_eq_true]
      by_cases hlong : 255 < part.length
      · simp only [hdot, hup, hlong, if_true, if_false, Bool.false_eq_true]
      simp only [hdot, hup, hlong, if_false, Bool.false_eq_true]
      rcases child? part entries with _ | _ | _ | _ | _ <;> rfl

/-- A walk that follows every link takes one from the number of links to go. -/
theorem walk_follow_cons (root : Entry) (links : Nat) (here : List Bytes) (part : Bytes)
    (rest : List Bytes) :
    root.walk true links here (part :: rest) =
      match root.turn here part with
      | .onward next => root.walk true links next rest
      | .link target =>
        match links with
        | 0 => .error .linkRing
        | links + 1 => root.walk true links (targetBase here target) (targetParts target ++ rest)
      | .nothing => if rest.isEmpty then .ok (here ++ [part], none) else .error .missing
      | .refused fault => .error fault := by
  rw [walk_cons, Bool.not_true, Bool.and_false]
  cases root.turn here part with
  | onward next | nothing | refused fault => rfl
  | link target => exact if_neg Bool.false_ne_true

/-- What can be said of a part for each of its meanings. -/
inductive Turns (root : Entry) (here : List Bytes) (part : Bytes) : Turn → Prop where
  | stay {entries : List (Bytes × Entry)} (hdir : root.get? here = some (.dir entries))
      (hdot : part = dot) : Turns root here part (.onward here)
  | up {entries : List (Bytes × Entry)} (hdir : root.get? here = some (.dir entries))
      (hup : part = dotDot) : Turns root here part (.onward here.dropLast)
  | down {entries : List (Bytes × Entry)} {e : Entry}
      (hdir : root.get? here = some (.dir entries)) (hname : NameInPath part)
      (hchild : child? part entries = some e) (hlink : ∀ target, e ≠ .link target) :
      Turns root here part (.onward (here ++ [part]))
  | link {entries : List (Bytes × Entry)} {target : Bytes}
      (hdir : root.get? here = some (.dir entries)) (hname : NameInPath part)
      (hchild : child? part entries = some (.link target)) : Turns root here part (.link target)
  | nothing {entries : List (Bytes × Entry)} (hdir : root.get? here = some (.dir entries))
      (hname : NameInPath part) (hchild : child? part entries = none) :
      Turns root here part .nothing
  | tooLong {entries : List (Bytes × Entry)} (hdir : root.get? here = some (.dir entries))
      (hdot : part ≠ dot) (hup : part ≠ dotDot) (hlong : 255 < part.length) :
      Turns root here part (.refused .nameTooLong)
  | notDirectory (hdir : ∀ entries, root.get? here ≠ some (.dir entries)) :
      Turns root here part (.refused .notDirectory)

/-- Each meaning of a part is the one that the walk gives it. -/
theorem Turns.eq {part : Bytes} {t : Turn} (h : Turns root here part t) :
    root.turn here part = t := by
  cases h with
  | stay hdir hdot => rw [turn, hdir]; simp [hdot]
  | up hdir hup => rw [turn, hdir]; simp [hup, dot, dotDot]
  | @down _ e hdir hname hchild hlink =>
    rw [turn, hdir]
    cases e with
    | link target => exact absurd rfl (hlink target)
    | file _ | dir _ | special => simp [hname.ne_dot, hname.ne_dotDot, hname.short, hchild]
  | link hdir hname hchild =>
    rw [turn, hdir]
    simp [hname.ne_dot, hname.ne_dotDot, hname.short, hchild]
  | nothing hdir hname hchild =>
    rw [turn, hdir]
    simp [hname.ne_dot, hname.ne_dotDot, hname.short, hchild]
  | tooLong hdir hdot hup hlong => rw [turn, hdir]; simp [hdot, hup, hlong]
  | notDirectory hdir =>
    unfold turn
    split
    next entries hentries => exact absurd hentries (hdir entries)
    next => rfl

/-- A part has one of these meanings. -/
theorem turns (root : Entry) (here : List Bytes) (part : Bytes) :
    Turns root here part (root.turn here part) := by
  have hmeaning : ∃ t, Turns root here part t := by
    by_cases hdir : ∃ entries, root.get? here = some (.dir entries)
    · obtain ⟨entries, hdir⟩ := hdir
      by_cases hdot : part = dot
      · exact ⟨_, .stay hdir hdot⟩
      by_cases hup : part = dotDot
      · exact ⟨_, .up hdir hup⟩
      by_cases hlong : 255 < part.length
      · exact ⟨_, .tooLong hdir hdot hup hlong⟩
      have hname : NameInPath part := ⟨hdot, hup, hlong⟩
      cases hchild : child? part entries with
      | none => exact ⟨_, .nothing hdir hname hchild⟩
      | some e =>
        cases e with
        | link target => exact ⟨_, .link hdir hname hchild⟩
        | file _ | dir _ | special => exact ⟨_, .down hdir hname hchild nofun⟩
    · exact ⟨_, .notDirectory fun entries h => hdir ⟨entries, h⟩⟩
  obtain ⟨t, ht⟩ := hmeaning
  rw [ht.eq]
  exact ht

/-- A walk goes on with fewer parts, or with fewer links to go. -/
theorem walk_induct {motive : Nat → List Bytes → List Bytes → Prop}
    (nil : ∀ links here, motive links here [])
    (cons : ∀ links here part rest, (∀ next, motive links next rest) →
      (∀ left, links = left + 1 → ∀ next parts, motive left next parts) →
        motive links here (part :: rest)) (links : Nat) (here parts : List Bytes) :
    motive links here parts := by
  induction links generalizing here parts with
  | zero =>
    induction parts generalizing here with
    | nil => exact nil 0 here
    | cons part rest ih => exact cons 0 here part rest ih nofun
  | succ left fewer =>
    induction parts generalizing here with
    | nil => exact nil _ here
    | cons part rest ih =>
      refine cons _ here part rest ih fun left' heq => ?_
      obtain rfl := Nat.succ.inj heq
      exact fewer

/-! ## Walks with more links to go -/

/-- A walk that does not run out of links takes no notice of further ones. -/
theorem walk_links_add (extra : Nat)
    (h : root.walk follow links here parts ≠ .error .linkRing) :
    root.walk follow (links + extra) here parts = root.walk follow links here parts := by
  induction links, here, parts using walk_induct with
  | nil links here => rw [walk, walk]
  | cons links here part rest ih fewer =>
    rw [walk_cons] at h ⊢
    rw [walk_cons root follow links]
    cases hturn : root.turn here part with
    | onward next =>
      rw [hturn] at h
      exact ih next h
    | nothing | refused fault => rfl
    | link target =>
      rw [hturn] at h
      dsimp only at h ⊢
      by_cases hstop : (rest.isEmpty && !follow) = true
      · rw [if_pos hstop, if_pos hstop]
      · rw [if_neg hstop] at h ⊢
        rw [if_neg hstop]
        cases links with
        | zero => exact absurd rfl h
        | succ left =>
          -- one link is taken from both numbers
          rw [Nat.add_right_comm]
          exact fewer left rfl _ _ h

/-- Two walks of the same parts, with different numbers of links to go, end alike if both run out of
links or neither does. -/
theorem walk_links_congr {links' : Nat}
    (h : root.walk follow links here parts = .error .linkRing ↔
      root.walk follow links' here parts = .error .linkRing) :
    root.walk follow links here parts = root.walk follow links' here parts := by
  by_cases hring : root.walk follow links here parts = .error .linkRing
  · rw [hring, h.mp hring]
  · have hring' := mt h.mpr hring
    -- with the links of both, each walk ends as it does with its own
    have hmore := walk_links_add links' hring
    have hmore' := walk_links_add links hring'
    rw [Nat.add_comm] at hmore'
    exact hmore.symm.trans hmore'

/-! ## Walks in two pieces -/

/-- The walk of a path through a directory goes on from there, with the links that are left. -/
theorem exists_walk_append {entries : List (Bytes × Entry)}
    (h : root.walk true links here parts = .ok (place, some (.dir entries))) :
    ∃ left, ∀ follow rest, rest ≠ [] →
      root.walk follow links here (parts ++ rest) = root.walk follow left place rest := by
  induction links, here, parts using walk_induct with
  | nil links here =>
    rw [walk] at h
    obtain ⟨rfl, -⟩ : here = place ∧ _ := Prod.mk.inj (Except.ok.inj h)
    exact ⟨links, fun _ _ _ => rfl⟩
  | cons links here part more ih fewer =>
    rw [walk_follow_cons] at h
    simp only [List.cons_append, walk_cons]
    cases hturn : root.turn here part with
    | onward next =>
      rw [hturn] at h
      exact ih next h
    | nothing =>
      rw [hturn] at h
      dsimp only at h
      split at h <;> cases h
    | refused fault =>
      rw [hturn] at h
      cases h
    | link target =>
      rw [hturn] at h
      cases links with
      | zero => cases h
      | succ left =>
        obtain ⟨left', hleft⟩ := fewer left rfl _ _ h
        refine ⟨left', fun follow rest hrest => ?_⟩
        -- the link is no longer the last part, so it is followed in any case
        have hmore : ((more ++ rest).isEmpty && !follow) = false := by
          simp [hrest]
        dsimp only
        rw [hmore, if_neg Bool.false_ne_true, ← List.append_assoc]
        exact hleft follow rest hrest

/-- A walk that does not follow a link at its end stops at one, or it ends as the other does. -/
theorem walk_noFollow {e : Entry} (h : root.walk true links here parts = .ok (place, some e)) :
    (∃ there target, root.walk false links here parts = .ok (there, some (.link target))) ∨
      root.walk false links here parts = .ok (place, some e) := by
  induction links, here, parts using walk_induct with
  | nil links here =>
    right
    rw [walk] at h ⊢
    exact h
  | cons links here part rest ih fewer =>
    rw [walk_follow_cons] at h
    rw [walk_cons]
    cases hturn : root.turn here part with
    | onward next =>
      rw [hturn] at h
      exact ih next h
    | nothing =>
      rw [hturn] at h
      exact .inr h
    | refused fault =>
      rw [hturn] at h
      cases h
    | link target =>
      rw [hturn] at h
      -- the last part is where the two walks can part; before it both follow
      cases rest with
      | nil => exact .inl ⟨here ++ [part], target, rfl⟩
      | cons next rest =>
        cases links with
        | zero => cases h
        | succ left => exact fewer left rfl _ _ h

/-! ## Two paths to one directory -/

variable {names names' : List Bytes} {n : Bytes} {entries : List (Bytes × Entry)}

/-- An entry of a directory is looked for from the place of the directory. -/
theorem exists_locate_join (hnames : ∀ m ∈ names, IsName m)
    (hdir : root.locate true links (absolute names) = .ok (place, some (.dir entries))) :
    ∃ left, ∀ n, IsName n → root.locate true links (join (absolute names) n) =
      if List.elem 0 n then .error .badName else root.walk true left place [n] := by
  unfold locate at hdir
  by_cases hzero : List.elem 0 (absolute names) = true
  · rw [if_pos hzero] at hdir
    cases hdir
  · rw [if_neg hzero, parts_absolute hnames] at hdir
    obtain ⟨left, hleft⟩ := exists_walk_append hdir
    refine ⟨left, fun n hn => ?_⟩
    have hall := forall_isName_concat hnames hn
    rw [locate, join_absolute hnames hn, parts_absolute hall, elem_absolute_concat (by decide),
      eq_false_of_ne_true hzero, Bool.false_or, hleft true [n] (List.cons_ne_nil _ _)]

/-- A lookup runs out of links where the walk of the path does. -/
theorem lookup_eq_linkRing_iff {path : Bytes} :
    root.lookup follow path = .error .linkRing ↔
      root.locate follow linkLimit path = .error .linkRing := by
  unfold lookup
  split
  next place e hplace => rw [hplace]; exact iff_of_false nofun nofun
  next place hplace => rw [hplace]; exact iff_of_false nofun nofun
  next fault hplace => rw [hplace]; simp

/-- By two paths to one directory a name leads to the same entry, unless only one of them leads through
too many links for that. -/
theorem lookup_join_congr (hnames : ∀ m ∈ names, IsName m) (hnames' : ∀ m ∈ names', IsName m)
    (hn : IsName n)
    (hdir : root.locate true linkLimit (absolute names) = .ok (place, some (.dir entries)))
    (hdir' : root.locate true linkLimit (absolute names') = .ok (place, some (.dir entries)))
    (hring : root.lookup true (join (absolute names) n) = .error .linkRing ↔
      root.lookup true (join (absolute names') n) = .error .linkRing) :
    root.lookup true (join (absolute names) n) = root.lookup true (join (absolute names') n) := by
  obtain ⟨left, hleft⟩ := exists_locate_join hnames hdir
  obtain ⟨left', hleft'⟩ := exists_locate_join hnames' hdir'
  rw [lookup_eq_linkRing_iff, lookup_eq_linkRing_iff, hleft n hn, hleft' n hn] at hring
  rw [lookup, lookup, hleft n hn, hleft' n hn]
  by_cases hzero : List.elem 0 n = true
  · rw [if_pos hzero, if_pos hzero]
  · rw [if_neg hzero, if_neg hzero] at hring
    rw [if_neg hzero, if_neg hzero, walk_links_congr hring]

/-- Seen without following it, the entry of a path is a link, or it is what the path leads to. -/
theorem lookup_noFollow {path : Bytes} {e : Entry}
    (h : root.locate true linkLimit path = .ok (place, some e)) :
    (∃ target, root.lookup false path = .ok (.link target)) ∨ root.lookup false path = .ok e := by
  unfold locate at h
  by_cases hzero : List.elem 0 path = true
  · rw [if_pos hzero] at h
    cases h
  · rw [if_neg hzero] at h
    rw [lookup, locate, if_neg hzero]
    obtain ⟨there, target, hlink⟩ | hsame := walk_noFollow h
    · rw [hlink]
      exact .inl ⟨target, rfl⟩
    · rw [hsame]
      exact .inr rfl

end ClassOutline.Entry
