import ClassOutline.Proofs.Files.Paths

/-!
# The way up from a file

Whether a file takes part depends on the directories above it. They can be met one by one: cut the
last part off the path and clean what is left, as long as that is neither the scanned directory nor
the root, and stop at a directory that is left out. `Filter.Ascends` is this loop, with the directories
it asks about and its answer.

The loop is given any text as a path: absolute, with steps up, with slashes in a row, or empty. That it
ends is not a matter of the length of the path, since a name of one byte becomes a dot. But every path
on the way is clean, and going up from a clean path takes one part away (`Path.dir_ofParts`). So the
loop goes through the beginnings of the parts above the file (`Filter.ascends_iff`), which is how
`Filter.accepts` lists them, and there are no more of them than slashes in the path.

For a clean relative path that does not lead up, the parts are its components, and the directories
asked about are its own beginnings (`Filter.accepts_ascent`).
-/

namespace ClassOutline

namespace Path

variable {absolute : Bool} {stack names : List Bytes} {n : Bytes}

/-! ## Going up from a clean path -/

/-- The directories that are above all others: the scanned one, and the root. -/
def isTop (dir : Bytes) : Bool := dir == dot || dir == [slash]

/-- What stands in front of the first part of a path. -/
def root (absolute : Bool) : Bytes := if absolute then [slash] else []

/-- The clean path of some parts. -/
def ofParts (absolute : Bool) (parts : List Bytes) : Bytes :=
  if parts.isEmpty then (if absolute then [slash] else dot) else root absolute ++ joined parts

theorem clean_eq_ofParts (s : Bytes) : clean s = ofParts (isAbsolute s) (cleanParts s) := by
  unfold clean ofParts root Path.absolute joined
  cases isAbsolute s with
  | true =>
    cases hparts : cleanParts s with
    | nil => rfl
    | cons p ps => rfl
  | false => rfl

theorem isTop_ofParts_nil (absolute : Bool) : isTop (ofParts absolute []) = true := by
  cases absolute <;> rfl

theorem isTop_ofParts (hne : names ≠ []) (hparts : ∀ p ∈ names, IsPart p) :
    isTop (ofParts absolute names) = false := by
  have hsplit : Bytes.split slash (joined names) = names :=
    split_joined hne fun p hp => (hparts p hp).no_slash
  have hempty : names.isEmpty = false := by simpa using hne
  rw [isTop, Bool.or_eq_false_iff, beq_eq_false_iff_ne, beq_eq_false_iff_ne, ofParts, hempty]
  constructor
  · cases absolute with
    | true => exact fun h => absurd (List.cons.inj h).1 (by decide)
    | false =>
      intro h
      rw [show joined names = dot from h] at hsplit
      exact (hparts dot (hsplit ▸ List.mem_cons_self)).ne_dot rfl
  · intro h
    have hjoined : joined names = [] ∨ joined names = [slash] := by
      cases absolute with
      | true => exact .inl (List.cons.inj h).2
      | false => exact .inr h
    -- in either case the path has an empty part
    have hmem : [] ∈ Bytes.split slash (joined names) := by
      rcases hjoined with h | h <;> simp [h, Bytes.split]
    exact (hparts [] (hsplit ▸ hmem)).ne_nil rfl

theorem parts_root_append (absolute : Bool) (s : Bytes) : parts (root absolute ++ s) = parts s := by
  cases absolute with
  | true =>
    have hsplit : Bytes.split slash (slash :: s) = [] :: Bytes.split slash s := by
      simp [Bytes.split]
    show parts (slash :: s) = parts s
    rw [parts, hsplit]
    rfl
  | false => rfl

theorem isAbsolute_root_append (absolute : Bool) (hparts : ∀ p ∈ names, IsPart p) :
    isAbsolute (root absolute ++ lead names) = absolute := by
  cases absolute with
  | true => rfl
  | false =>
    cases names with
    | nil => rfl
    | cons p ps =>
      have hp := hparts p List.mem_cons_self
      obtain ⟨b, t, rfl⟩ := List.exists_cons_of_ne_nil hp.ne_nil
      have hb : b ≠ slash := fun h => hp.no_slash (by simp [h])
      simp [root, isAbsolute, lead_cons, hb]

/-- What stands up to the last slash of a path is what the paths beside it begin with. -/
theorem uptoSlash_ofParts (absolute : Bool) (names : List Bytes) (hn : slash ∉ n) :
    uptoSlash (ofParts absolute (names ++ [n])) = root absolute ++ lead names := by
  have hpath : ofParts absolute (names ++ [n]) = root absolute ++ (lead names ++ n) := by
    rw [ofParts, if_neg (by simp), joined_append names (List.cons_ne_nil _ _), joined_singleton]
  rw [hpath]
  rcases List.eq_nil_or_concat' names with rfl | ⟨ps, p, rfl⟩
  · cases absolute with
    | true => exact uptoSlash_append (u := []) hn
    | false => exact uptoSlash_of_not_mem hn
  · have hlead : lead (ps ++ [p]) = (lead ps ++ p) ++ [slash] := by simp [lead]
    have hcut := uptoSlash_append (u := root absolute ++ (lead ps ++ p)) hn
    rw [hlead]
    simpa using hcut

/-- Going up from a clean path takes its last part away. -/
theorem dir_ofParts (h : IsClean absolute (n :: stack)) :
    dir (ofParts absolute (stack.reverse ++ [n])) = ofParts absolute stack.reverse := by
  have hparts : ∀ p ∈ stack.reverse, IsPart p :=
    fun p hp => h.tail.isPart p (List.mem_reverse.mp hp)
  have hn : slash ∉ n := (h.isPart n List.mem_cons_self).no_slash
  rw [dir, uptoSlash_ofParts absolute _ hn, clean_eq_ofParts, cleanParts,
    isAbsolute_root_append absolute hparts, parts_root_append, parts_lead hparts,
    h.tail.foldl_push_reverse]

end Path

namespace Filter

open ClassOutline.Path

variable {f : Filter} {asked : List Bytes} {ok : Bool}

/-! ## The loop -/

/-- The way up from a directory: the directories that are asked about, and whether none of them is left
out. The first that is left out ends the way. -/
inductive Ascends (f : Filter) : Bytes → List Bytes → Bool → Prop where
  | top {dir : Bytes} (htop : isTop dir = true) : Ascends f dir [] true
  | leftOut {dir : Bytes} (htop : isTop dir = false) (hskip : f.skipsDir dir = true) :
      Ascends f dir [dir] false
  | up {dir : Bytes} {asked : List Bytes} {ok : Bool} (htop : isTop dir = false)
      (hskip : f.skipsDir dir = false) (rest : Ascends f (Path.dir dir) asked ok) :
      Ascends f dir (dir :: asked) ok

/-- The elements of a list up to the first with a property. -/
def upTo {α : Type} (p : α → Bool) (l : List α) : List α := l.take (l.findIdx p + 1)

theorem length_upTo_le {α : Type} (p : α → Bool) (l : List α) : (upTo p l).length ≤ l.length :=
  List.length_take_le' _ _

theorem upTo_of_none {α : Type} {p : α → Bool} {l : List α} (h : ∀ a ∈ l, p a = false) :
    upTo p l = l := by
  rw [upTo, List.findIdx_eq_length.mpr h]
  exact List.take_of_length_le (Nat.le_succ _)

theorem upTo_cons {α : Type} (p : α → Bool) (a : α) (l : List α) :
    upTo p (a :: l) = a :: if p a then [] else upTo p l := by
  cases h : p a <;> simp [upTo, List.findIdx_cons, h]

/-- The directories above a file, from the lowest one up. -/
def above (absolute : Bool) (parts : List Bytes) : List Bytes :=
  ((beginnings parts).map (ofParts absolute)).reverse

theorem beginnings_concat {α : Type} (l : List α) (a : α) :
    beginnings (l ++ [a]) = beginnings l ++ [l ++ [a]] := by
  induction l with
  | nil => rfl
  | cons b l ih => simp [beginnings, ih]

theorem above_concat (absolute : Bool) (parts : List Bytes) (n : Bytes) :
    above absolute (parts ++ [n]) = ofParts absolute (parts ++ [n]) :: above absolute parts := by
  simp [above, beginnings_concat]

/-- The way up from a clean path ends. It asks about the directories from there up, as far as the first
that is left out. -/
theorem ascends_ofParts_iff {absolute : Bool} {stack : List Bytes} (h : IsClean absolute stack) :
    f.Ascends (ofParts absolute stack.reverse) asked ok ↔
      asked = upTo f.skipsDir (above absolute stack.reverse) ∧
        ok = (above absolute stack.reverse).all fun dir => !f.skipsDir dir := by
  -- one turn of the loop takes one part off the stack
  induction stack generalizing asked ok with
  | nil =>
    have htop := isTop_ofParts_nil absolute
    constructor
    · intro hrun
      cases hrun with
      | top => exact ⟨rfl, rfl⟩
      | leftOut hdown | up hdown => simp [htop] at hdown
    · rintro ⟨rfl, rfl⟩
      exact .top htop
  | cons n stack ih =>
    have hparts : ∀ p ∈ stack.reverse ++ [n], IsPart p := by
      intro p hp
      exact h.isPart p (by simpa [or_comm] using hp)
    have hdown : isTop (ofParts absolute (stack.reverse ++ [n])) = false :=
      isTop_ofParts (by simp) hparts
    rw [List.reverse_cons, above_concat, upTo_cons, List.all_cons]
    constructor
    · intro hrun
      cases hrun with
      | top htop => simp [hdown] at htop
      | leftOut _ hskip => simp [hskip]
      | up _ hskip hrest =>
        rw [dir_ofParts h] at hrest
        obtain ⟨rfl, rfl⟩ := (ih h.tail).mp hrest
        simp [hskip]
    · rintro ⟨rfl, rfl⟩
      cases hskip : f.skipsDir (ofParts absolute (stack.reverse ++ [n])) with
      | true => exact .leftOut hdown hskip
      | false =>
        refine .up hdown hskip ?_
        rw [dir_ofParts h]
        exact (ih h.tail).mpr ⟨rfl, rfl⟩

/-! ## Any path -/

theorem enclosing_eq (path : Bytes) :
    enclosing path =
      (above (isAbsolute (uptoSlash path)) (cleanParts (uptoSlash path))).reverse := by
  unfold enclosing above
  rw [List.reverse_reverse]
  apply List.map_congr_left
  intro parts hparts
  have hne : parts.isEmpty = false := by simpa using (mem_beginnings.mp hparts).1
  rw [ofParts, hne]
  rfl

/-- From every path the way up ends, with the directories that enclose it. -/
theorem ascends_iff (path : Bytes) :
    f.Ascends (Path.dir path) asked ok ↔
      asked = upTo f.skipsDir (enclosing path).reverse ∧
        ok = (enclosing path).all fun dir => !f.skipsDir dir := by
  have hdir : Path.dir path =
      ofParts (isAbsolute (uptoSlash path)) (cleanParts (uptoSlash path)).reverse.reverse := by
    rw [List.reverse_reverse, Path.dir, clean_eq_ofParts]
  rw [hdir, ascends_ofParts_iff (isClean_cleanParts _), enclosing_eq, List.reverse_reverse,
    List.reverse_reverse, List.all_reverse]

theorem length_beginnings {α : Type} (l : List α) : (beginnings l).length = l.length := by
  induction l with
  | nil => rfl
  | cons a l ih => simp [beginnings, ih]

/-- Above a file there are no more directories than slashes in its path. -/
theorem length_enclosing_le (path : Bytes) : (enclosing path).length ≤ path.count slash := by
  have hlength : (enclosing path).length = (cleanParts (uptoSlash path)).length := by
    rw [enclosing_eq, above, List.reverse_reverse, List.length_map, length_beginnings]
  rw [hlength]
  refine (length_cleanParts_le _).trans ?_
  by_cases hslash : slash ∈ path
  · -- in front of the last slash there is at most one part more than slashes
    obtain ⟨u, n, rfl, hn⟩ := exists_last_slash hslash
    rw [uptoSlash_append hn, parts_append_slash]
    have hcount : (parts u).length ≤ u.count slash + 1 := by
      rw [← Bytes.length_split]
      exact List.length_filter_le _ _
    rw [List.count_append, List.count_cons_self]
    omega
  · rw [uptoSlash_of_not_mem hslash]
    exact Nat.zero_le _

/-! ## Clean relative paths -/

/-- A clean path below the scanned directory, which does not lead up, with its components. -/
structure IsPlain (path : Bytes) (components : List Bytes) : Prop where
  clean : Path.clean path = path
  relative : isAbsolute path = false
  split : Bytes.split slash path = components
  no_up : dotDot ∉ components

/-- The components are names, but for the path of the scanned directory itself. -/
theorem IsPlain.names {path : Bytes} {components : List Bytes} (h : IsPlain path components) :
    path = joined components ∧ ((∀ c ∈ components, IsName c) ∨ components = [dot]) := by
  obtain ⟨hclean, hrelative, rfl, hup⟩ := h
  refine ⟨(Bytes.join_split slash path).symm, ?_⟩
  have hparts := isClean_cleanParts path
  rw [clean_eq_ofParts, hrelative] at hclean
  rw [hrelative] at hparts
  cases hnames : cleanParts path with
  | nil =>
    -- nothing is left, and the path is clean, so it is written as a dot
    rw [hnames] at hclean
    have hdot : path = dot := hclean.symm
    right
    rw [hdot]
    rfl
  | cons p ps =>
    rw [hnames] at hclean hparts
    have hpart : ∀ c ∈ p :: ps, IsPart c := fun c hc => hparts.isPart c (List.mem_reverse.mpr hc)
    have hsplit : Bytes.split slash path = p :: ps := by
      have hjoined : joined (p :: ps) = path := hclean
      rw [← hjoined]
      exact split_joined (List.cons_ne_nil _ _) fun c hc => (hpart c hc).no_slash
    rw [hsplit] at hup ⊢
    -- a part of a clean path is a name unless it is a step up
    exact .inl fun c hc => (hpart c hc).isName fun heq => hup (heq ▸ hc)

/-- The directories above such a file are the beginnings of its path. -/
theorem IsPlain.enclosing_eq {path : Bytes} {cs : List Bytes} {n : Bytes}
    (h : IsPlain path (cs ++ [n])) :
    enclosing path = (beginnings cs).map joined ∧ base path = n ∧
      ((enclosing path).all (fun dir => !f.skipsDir dir) = true ↔
        ∀ up d, up ++ [d] <+: cs → d.head? ≠ some 0x2E ∧ f.ignored (joined (up ++ [d])) = false) := by
  obtain ⟨rfl, hnames | hdot⟩ := h.names
  · rw [List.forall_mem_append, List.forall_mem_singleton] at hnames
    exact ⟨enclosing_joined hnames.1 hnames.2, base_joined hnames.2,
      all_enclosing_joined f hnames.1 hnames.2⟩
  · obtain ⟨rfl, hn⟩ := List.append_eq_singleton_iff.mp hdot |>.resolve_right (by simp)
    obtain rfl := (List.cons.inj hn).1
    exact ⟨rfl, rfl, by simp [joined_singleton, show enclosing dot = [] from rfl]⟩

/-- **A file takes part if no directory on the way up is left out.** From every path the way up ends, in
one way, after no more questions than there are slashes, and a file takes part if it is not too large,
is not ignored, comes to the end of the way and has a name that a pattern matches. For a clean relative
path that does not lead up, the questions are about the beginnings of its components, from the longest
one: about every one of them, unless one is left out and with that the file. So the file takes part
exactly if none of these beginnings is ignored or ends in a hidden name, besides the conditions on the
file itself. -/
theorem accepts_ascent (f : Filter) (path : Bytes) (size : Int) :
    (∃! run : List Bytes × Bool, f.Ascends (Path.dir path) run.1 run.2) ∧
    (∀ asked ok, f.Ascends (Path.dir path) asked ok →
      asked.length ≤ path.count slash ∧
      (f.accepts path size = true ↔ (0 < f.maxBytes → size ≤ f.maxBytes) ∧ f.ignored path = false ∧
        ok = true ∧ ∃ pattern ∈ f.patterns, Glob.isMatch pattern (base path) = true)) ∧
    ∀ cs n, IsPlain path (cs ++ [n]) →
      (∀ asked ok, f.Ascends (Path.dir path) asked ok →
        asked = upTo f.skipsDir ((beginnings cs).map joined).reverse ∧
        (ok = true → asked = ((beginnings cs).map joined).reverse)) ∧
      (f.accepts path size = true ↔ (0 < f.maxBytes → size ≤ f.maxBytes) ∧ f.ignored path = false ∧
        (∀ up d, up ++ [d] <+: cs →
          d.head? ≠ some 0x2E ∧ f.ignored (joined (up ++ [d])) = false) ∧
        ∃ pattern ∈ f.patterns, Glob.isMatch pattern n = true) := by
  have haccepts := f.accepts_eq_true_iff path size
  refine ⟨?ends, ?run, ?plain⟩
  case ends =>
    refine ⟨(_, _), (ascends_iff path).mpr ⟨rfl, rfl⟩, fun run hrun => ?_⟩
    obtain ⟨hasked, hok⟩ := (ascends_iff path).mp hrun
    exact Prod.ext hasked hok
  case run =>
    intro asked ok hrun
    obtain ⟨rfl, rfl⟩ := (ascends_iff path).mp hrun
    refine ⟨?_, haccepts⟩
    have hcount := length_enclosing_le path
    rw [← List.length_reverse] at hcount
    exact (length_upTo_le _ _).trans hcount
  case plain =>
    intro cs n hplain
    obtain ⟨hdirs, hbase, hall⟩ := hplain.enclosing_eq (f := f)
    refine ⟨?_, ?_⟩
    · intro asked ok hrun
      obtain ⟨rfl, rfl⟩ := (ascends_iff path).mp hrun
      rw [hdirs]
      refine ⟨rfl, fun hok => upTo_of_none fun dir hdir => ?_⟩
      simpa using List.all_eq_true.mp hok dir (List.mem_reverse.mp hdir)
    · rw [haccepts, hall, hbase]

/-- An ignored directory ends the way, so nothing is asked about the one above it. -/
theorem accepts_ascent_ignored :
    let f : Filter := ⟨[Bytes.ofString "*.java"], (· == Bytes.ofString "a/b"), 0⟩
    let path := Bytes.ofString "a/b/c/A.java"
    let cs := [Bytes.ofString "a", Bytes.ofString "b", Bytes.ofString "c"]
    let asked := [Bytes.ofString "a/b/c", Bytes.ofString "a/b"]
    IsPlain path (cs ++ [Bytes.ofString "A.java"]) ∧ f.Ascends (Path.dir path) asked false ∧
      asked.length ≤ path.count slash ∧
      asked = upTo f.skipsDir ((beginnings cs).map joined).reverse ∧ f.accepts path 0 = false := by
  intro f path cs asked
  have hplain : IsPlain path (cs ++ [Bytes.ofString "A.java"]) :=
    ⟨by decide, by decide, by decide, by decide⟩
  have hbelow : Path.dir path = Bytes.ofString "a/b/c" := by decide
  have habove : Path.dir (Bytes.ofString "a/b/c") = Bytes.ofString "a/b" := by decide
  have hrun : f.Ascends (Path.dir path) asked false := by
    rw [hbelow]
    apply Ascends.up (by decide) (by decide)
    rw [habove]
    exact .leftOut (by decide) (by decide)
  obtain ⟨-, hway, hcomponents⟩ := accepts_ascent f path 0
  obtain ⟨hcount, haccepts⟩ := hway asked false hrun
  have hasked := (hcomponents cs _ hplain).1 asked false hrun
  refine ⟨hplain, hrun, hcount, hasked.1, ?_⟩
  rw [Bool.eq_false_iff, ne_eq, haccepts]
  rintro ⟨-, -, hend, -⟩
  cases hend

end Filter

end ClassOutline
