import ClassOutline.Proofs.Text.OneLine
import ClassOutline.Scan.Listing
import Mathlib.Data.List.Sort

/-!
# Paths made of names

The entries of a file tree are reached by lists of names, and a scan shows them as paths: the names
with slashes between (`Path.joined`). This module says that nothing is lost on the way. A list of
names is told by its path (`joined_injective`), cleaning leaves such a path alone
(`cleanParts_joined_slash`), its last part is the last name (`base_append`) wherever it is seen from
(`base_seenFrom`), and the directories above it are the shorter lists (`Filter.enclosing_joined`).
Below a directory a path goes on with names (`eq_joined_of_lead_append`).

The parts of any other path are cleaned on a stack, from which a step up takes the last name. What
that leaves (`IsClean`) are names, below steps up that only a relative path can begin with, so every
clean absolute path is made of names (`isName_of_mem_cleanParts`). Cleaning it once more leaves it as
it is (`IsClean.foldl_push_reverse`).

The byte order of paths is a strict total order (`before_trans`, `before_total`), so files with
different paths have one sorted form (`Scan.sortFiles_congr`).
-/

namespace ClassOutline

namespace Path

/-- A name that an entry of a directory can have. -/
structure IsName (n : Bytes) : Prop where
  ne_nil : n ≠ []
  no_slash : slash ∉ n
  ne_dot : n ≠ dot
  ne_dotDot : n ≠ dotDot

instance (n : Bytes) : Decidable (IsName n) :=
  decidable_of_iff (n ≠ [] ∧ slash ∉ n ∧ n ≠ dot ∧ n ≠ dotDot)
    ⟨fun h => ⟨h.1, h.2.1, h.2.2.1, h.2.2.2⟩, fun h => ⟨h.1, h.2, h.3, h.4⟩⟩

/-- What stands between the slashes of a path and says something. -/
structure IsPart (p : Bytes) : Prop where
  ne_nil : p ≠ []
  no_slash : slash ∉ p
  ne_dot : p ≠ dot

theorem IsName.isPart {n : Bytes} (h : IsName n) : IsPart n := ⟨h.ne_nil, h.no_slash, h.ne_dot⟩

theorem IsPart.isName {p : Bytes} (h : IsPart p) (hup : p ≠ dotDot) : IsName p :=
  ⟨h.ne_nil, h.no_slash, h.ne_dot, hup⟩

theorem forall_isName_concat {names : List Bytes} {n : Bytes} (hnames : ∀ m ∈ names, IsName m)
    (hn : IsName n) : ∀ m ∈ names ++ [n], IsName m :=
  List.forall_mem_append.mpr ⟨hnames, List.forall_mem_singleton.mpr hn⟩

/-- The path that a list of names stands for. -/
def joined (names : List Bytes) : Bytes := Bytes.join [slash] names

variable {names : List Bytes} {n u : Bytes}

@[simp] theorem joined_nil : joined [] = [] := rfl

@[simp] theorem joined_singleton (n : Bytes) : joined [n] = n := rfl

theorem joined_cons_cons (n m : Bytes) (names : List Bytes) :
    joined (n :: m :: names) = n ++ slash :: joined (m :: names) :=
  Bytes.join_cons_cons slash n m names

theorem joined_concat (hne : names ≠ []) (n : Bytes) :
    joined (names ++ [n]) = joined names ++ slash :: n := by
  induction names with
  | nil => exact absurd rfl hne
  | cons m names ih =>
    cases names with
    | nil => exact joined_cons_cons m n []
    | cons k names =>
      have hrest := ih (List.cons_ne_nil _ _)
      rw [List.cons_append, List.cons_append, joined_cons_cons, ← List.cons_append, hrest,
        joined_cons_cons, List.append_assoc, List.cons_append]

theorem joined_ne_nil (hne : names ≠ []) (hnames : ∀ n ∈ names, n ≠ []) : joined names ≠ [] := by
  cases names with
  | nil => exact absurd rfl hne
  | cons n names =>
    have hn := hnames n List.mem_cons_self
    cases names with
    | nil => exact hn
    | cons m names => simp [joined_cons_cons, hn]

theorem split_joined (hne : names ≠ []) (hnames : ∀ n ∈ names, slash ∉ n) :
    Bytes.split slash (joined names) = names :=
  Bytes.split_join hne hnames

/-- A path tells the names it is made of. -/
theorem joined_injective {names names' : List Bytes} (h : ∀ n ∈ names, IsName n)
    (h' : ∀ n ∈ names', IsName n) (heq : joined names = joined names') : names = names' := by
  have hempty : ∀ l : List Bytes, (∀ n ∈ l, IsName n) → joined l = [] → l = [] := by
    intro l hl hnil
    by_contra hne
    exact joined_ne_nil hne (fun n hn => (hl n hn).ne_nil) hnil
  by_cases hne : names = []
  · subst hne
    exact (hempty names' h' heq.symm).symm
  by_cases hne' : names' = []
  · subst hne'
    exact hempty names h heq
  rw [← split_joined hne fun n hn => (h n hn).no_slash, heq,
    split_joined hne' fun n hn => (h' n hn).no_slash]

theorem below_joined (hnames : ∀ n ∈ names, IsName n) (n : Bytes) :
    Scan.below (joined names) n = joined (names ++ [n]) := by
  by_cases hne : names = []
  · subst hne
    rfl
  · have hjoin := joined_ne_nil hne fun n hn => (hnames n hn).ne_nil
    rw [joined_concat hne]
    simp [Scan.below, hjoin]

/-! ## The last part and what stands before it -/

/-- Read from its end, a path shows its last part first. -/
theorem reverse_append_slash (u n : Bytes) :
    (u ++ slash :: n).reverse = n.reverse ++ slash :: u.reverse := by
  simp

theorem bne_slash_of_mem_reverse (hn : slash ∉ n) : ∀ b ∈ n.reverse, (b != slash) = true :=
  Read.bne_of_not_mem (by simpa using hn)

theorem uptoSlash_of_not_mem (hn : slash ∉ n) : uptoSlash n = [] := by
  have hdrop := Read.dropWhile_append_stop (s := []) (bne_slash_of_mem_reverse hn) rfl
  rw [List.append_nil] at hdrop
  rw [uptoSlash, hdrop, List.reverse_nil]

theorem uptoSlash_append (hn : slash ∉ n) : uptoSlash (u ++ slash :: n) = u ++ [slash] := by
  rw [uptoSlash, reverse_append_slash,
    Read.dropWhile_append_stop (bne_slash_of_mem_reverse hn) (by simp)]
  simp

theorem afterSlash_of_not_mem (hn : slash ∉ n) : afterSlash n = n := by
  have htake := Read.takeWhile_append_stop (s := []) (bne_slash_of_mem_reverse hn) rfl
  rw [List.append_nil] at htake
  rw [afterSlash, htake, List.reverse_reverse]

theorem afterSlash_append (hn : slash ∉ n) : afterSlash (u ++ slash :: n) = n := by
  rw [afterSlash, reverse_append_slash,
    Read.takeWhile_append_stop (bne_slash_of_mem_reverse hn) (by simp), List.reverse_reverse]

/-- A path with a slash has a last one. -/
theorem exists_last_slash {path : Bytes} (h : slash ∈ path) :
    ∃ u n, path = u ++ slash :: n ∧ slash ∉ n := by
  obtain ⟨m, v, hreverse, hm⟩ := List.eq_append_cons_of_mem (List.mem_reverse.mpr h)
  refine ⟨v.reverse, m.reverse, ?_, by simpa using hm⟩
  rw [← List.reverse_reverse path, hreverse]
  simp

theorem dropWhileEnd_name (hne : n ≠ []) (hn : slash ∉ n) :
    Bytes.dropWhileEnd (· == slash) (u ++ n) = u ++ n := by
  obtain ⟨m, b, rfl⟩ := List.eq_nil_or_concat' n |>.resolve_left hne
  have hb : b ≠ slash := fun h => hn (by simp [h])
  simp [Bytes.dropWhileEnd, hb]

theorem base_append (hne : n ≠ []) (hn : slash ∉ n) : base (u ++ slash :: n) = n := by
  have hdrop : Bytes.dropWhileEnd (· == slash) (u ++ slash :: n) = u ++ slash :: n := by
    simpa using dropWhileEnd_name (u := u ++ [slash]) hne hn
  simp [base, hdrop, afterSlash_append hn, hne]

theorem base_name (hne : n ≠ []) (hn : slash ∉ n) : base n = n := by
  have hdrop : Bytes.dropWhileEnd (· == slash) n = n := by
    simpa using dropWhileEnd_name (u := []) hne hn
  simp [base, hdrop, afterSlash_of_not_mem hn, hne]

theorem base_joined (hn : IsName n) : base (joined (names ++ [n])) = n := by
  by_cases hne : names = []
  · subst hne
    exact base_name hn.ne_nil hn.no_slash
  · rw [joined_concat hne]
    exact base_append hn.ne_nil hn.no_slash

/-! ## Clean paths -/

theorem push_name (absolute : Bool) (stack : List Bytes) (hn : IsName n) :
    push absolute stack n = n :: stack := by
  simp [push, hn.ne_dotDot]

theorem foldl_push_names (absolute : Bool) (stack : List Bytes) (hnames : ∀ n ∈ names, IsName n) :
    names.foldl (push absolute) stack = names.reverse ++ stack := by
  induction names generalizing stack with
  | nil => rfl
  | cons n names ih =>
    rw [List.foldl_cons, push_name _ _ (hnames n List.mem_cons_self),
      ih _ fun m hm => hnames m (List.mem_cons_of_mem _ hm)]
    simp

theorem filter_parts (hparts : ∀ p ∈ names, IsPart p) :
    names.filter (fun p => !p.isEmpty && p != dot) = names := by
  rw [List.filter_eq_self]
  intro p hp
  simp [(hparts p hp).ne_nil, (hparts p hp).ne_dot]

theorem isPart_of_mem_parts {s : Bytes} : ∀ p ∈ parts s, IsPart p := by
  intro p hp
  simp only [parts, List.mem_filter, Bool.and_eq_true, Bool.not_eq_true',
    List.isEmpty_eq_false_iff, bne_iff_ne] at hp
  exact ⟨hp.2.1, (Bytes.mem_split hp.1).1, hp.2.2⟩

/-- What is behind the last slash of a path comes last among its parts. -/
theorem parts_append (u : Bytes) (hn : IsName n) : parts (u ++ slash :: n) = parts u ++ [n] := by
  simp [parts, Bytes.split_append, Bytes.split_of_not_mem hn.no_slash, hn.ne_nil, hn.ne_dot]

/-- Cleaning works on what stands before the last name and keeps the name. -/
theorem exists_cleanParts_append (u : Bytes) (hn : IsName n) :
    ∃ front, cleanParts (u ++ slash :: n) = front ++ [n] := by
  refine ⟨((parts u).foldl (push (isAbsolute (u ++ slash :: n))) []).reverse, ?_⟩
  rw [cleanParts, parts_append u hn, List.foldl_append, List.foldl_cons, List.foldl_nil,
    push_name _ _ hn, List.reverse_cons]

theorem base_clean (u : Bytes) (hn : IsName n) : base (clean (u ++ slash :: n)) = n := by
  obtain ⟨front, hparts⟩ := exists_cleanParts_append u hn
  have hlast : base (joined (front ++ [n])) = n := base_joined hn
  unfold clean
  simp only [hparts]
  split
  · -- below the root there is one slash more in front
    have hrooted : base (([] : Bytes) ++ slash :: n) = n := base_append hn.ne_nil hn.no_slash
    show base (slash :: joined (front ++ [n])) = n
    by_cases hne : front = []
    · subst hne
      exact hrooted
    · rw [joined_concat hne, ← List.cons_append]
      exact base_append hn.ne_nil hn.no_slash
  · rw [if_neg (by simp)]
    exact hlast

/-- Seen from anywhere, a path keeps its last name. -/
theorem base_seenFrom (cwd dir : Bytes) (hn : IsName n) :
    base (seenFrom cwd (dir ++ slash :: n)) = n := by
  unfold seenFrom
  split
  · exact base_clean dir hn
  · have hbelow : cwd ++ slash :: (dir ++ slash :: n) = (cwd ++ slash :: dir) ++ slash :: n := by
      simp
    rw [join, hbelow]
    split
    · simp_all
    · split
      · exact base_clean dir hn
      · rw [if_neg (by simp)]
        exact base_clean _ hn

theorem parts_append_slash (s : Bytes) : parts (s ++ [slash]) = parts s := by
  simp [parts, Bytes.split_append, Bytes.split]

/-- The parts of a clean path, the last one first: names, and under them the steps up that a relative
path may begin with. -/
inductive IsClean (absolute : Bool) : List Bytes → Prop where
  | nil : IsClean absolute []
  | up {stack : List Bytes} (hrelative : absolute = false) (hups : ∀ p ∈ stack, p = dotDot)
      (hstack : IsClean absolute stack) : IsClean absolute (dotDot :: stack)
  | name {n : Bytes} {stack : List Bytes} (hn : IsName n) (hstack : IsClean absolute stack) :
      IsClean absolute (n :: stack)

namespace IsClean

variable {absolute : Bool} {stack : List Bytes} {p : Bytes}

/-- One more part keeps a path clean: a step up takes a name away, or stands with its like. -/
theorem push (h : IsClean absolute stack) (hp : IsPart p) :
    IsClean absolute (Path.push absolute stack p) := by
  unfold Path.push
  split
  · -- a step up takes a name away, and comes to lie on nothing but other steps up
    cases h with
    | nil =>
      cases absolute with
      | true => exact .nil
      | false => exact .up rfl (List.forall_mem_nil _) .nil
    | up hrelative hups hstack =>
      exact .up hrelative (List.forall_mem_cons.mpr ⟨rfl, hups⟩) (.up hrelative hups hstack)
    | name hn hstack => simpa [hn.ne_dotDot] using hstack
  · rename_i hup
    exact .name (hp.isName fun h => hup (beq_iff_eq.mpr h)) h

theorem foldl_push {l : List Bytes} (h : IsClean absolute stack) (hl : ∀ p ∈ l, IsPart p) :
    IsClean absolute (l.foldl (Path.push absolute) stack) := by
  induction l generalizing stack with
  | nil => exact h
  | cons p l ih =>
    rw [List.forall_mem_cons] at hl
    exact ih (h.push hl.1) hl.2

/-- What is clean is not cleaned any further. -/
theorem push_eq (h : IsClean absolute (p :: stack)) : Path.push absolute stack p = p :: stack := by
  cases h with
  | up hrelative hups _ =>
    subst hrelative
    cases stack with
    | nil => rfl
    | cons q rest =>
      obtain rfl : q = dotDot := hups q List.mem_cons_self
      rfl
  | name hn _ => exact push_name absolute stack hn

theorem tail (h : IsClean absolute (p :: stack)) : IsClean absolute stack := by
  cases h with
  | up _ _ hstack | name _ hstack => exact hstack

theorem foldl_push_reverse (h : IsClean absolute stack) :
    stack.reverse.foldl (Path.push absolute) [] = stack := by
  induction stack with
  | nil => rfl
  | cons p stack ih =>
    rw [List.reverse_cons, List.foldl_append, ih h.tail, List.foldl_cons, List.foldl_nil, h.push_eq]

theorem isPart (h : IsClean absolute stack) : ∀ p ∈ stack, IsPart p := by
  induction h with
  | nil => exact List.forall_mem_nil _
  | up _ _ _ ih => exact List.forall_mem_cons.mpr ⟨⟨by decide, by decide, by decide⟩, ih⟩
  | name hn _ ih => exact List.forall_mem_cons.mpr ⟨hn.isPart, ih⟩

theorem isName (h : IsClean true stack) : ∀ n ∈ stack, IsName n := by
  induction stack with
  | nil => exact List.forall_mem_nil _
  | cons p stack ih =>
    refine List.forall_mem_cons.mpr ⟨?_, ih h.tail⟩
    cases h with
    | up hrelative => cases hrelative
    | name hn => exact hn

end IsClean

theorem length_push_le (absolute : Bool) (stack : List Bytes) (p : Bytes) :
    (push absolute stack p).length ≤ stack.length + 1 := by
  fun_cases push absolute stack p <;> simp
  omega

theorem length_cleanParts_le (s : Bytes) : (cleanParts s).length ≤ (parts s).length := by
  have hfold : ∀ l stack : List Bytes,
      (l.foldl (push (isAbsolute s)) stack).length ≤ stack.length + l.length := by
    intro l
    induction l with
    | nil => exact fun _ => Nat.le_refl _
    | cons p l ih =>
      intro stack
      have hpush := length_push_le (isAbsolute s) stack p
      have hrest := ih (push (isAbsolute s) stack p)
      rw [List.foldl_cons, List.length_cons]
      omega
  simpa [cleanParts] using hfold (parts s) []

theorem isClean_cleanParts (s : Bytes) : IsClean (isAbsolute s) (cleanParts s).reverse := by
  rw [cleanParts, List.reverse_reverse]
  exact IsClean.nil.foldl_push isPart_of_mem_parts

theorem cleanParts_joined_slash (hne : names ≠ []) (hnames : ∀ n ∈ names, IsName n) :
    cleanParts (joined names ++ [slash]) = names := by
  have hparts : parts (joined names ++ [slash]) = names := by
    unfold parts
    rw [Bytes.split_append, split_joined hne fun n hn => (hnames n hn).no_slash,
      List.filter_append, filter_parts fun n hn => (hnames n hn).isPart]
    simp [Bytes.split]
  rw [cleanParts, hparts, foldl_push_names _ _ hnames, List.append_nil, List.reverse_reverse]

theorem isAbsolute_joined (hne : names ≠ []) (hnames : ∀ n ∈ names, IsName n) (s : Bytes) :
    isAbsolute (joined names ++ s) = false := by
  cases names with
  | nil => exact absurd rfl hne
  | cons n names =>
    have hn := hnames n List.mem_cons_self
    obtain ⟨b, t, rfl⟩ := List.exists_cons_of_ne_nil hn.ne_nil
    have hb : b ≠ slash := fun h => hn.no_slash (by simp [h])
    cases names with
    | nil => simp [isAbsolute, hb]
    | cons m names => simp [isAbsolute, joined_cons_cons, hb]

/-! ## Paths below a directory -/

section Below

variable {more : List Bytes} {s : Bytes}

/-- What the paths below the directory of some names begin with: each name and a slash. -/
def lead (names : List Bytes) : Bytes := names.flatMap (· ++ [slash])

theorem lead_cons (n : Bytes) (names : List Bytes) :
    lead (n :: names) = n ++ slash :: lead names := by
  simp [lead]

/-- A path below a directory is the directory's lead and the path from there. -/
theorem joined_append (names : List Bytes) (hmore : more ≠ []) :
    joined (names ++ more) = lead names ++ joined more := by
  induction names with
  | nil => rfl
  | cons n names ih =>
    obtain ⟨m, rest, hcons⟩ :=
      List.exists_cons_of_ne_nil (List.append_ne_nil_of_right_ne_nil names hmore)
    rw [List.cons_append, lead_cons, List.append_assoc, List.cons_append, ← ih, hcons]
    exact joined_cons_cons n m rest

theorem joined_slash (hne : names ≠ []) : joined names ++ [slash] = lead names := by
  rw [← joined_concat hne, joined_append names (List.cons_ne_nil _ _), joined_singleton,
    List.append_nil]

theorem split_lead (hnames : ∀ n ∈ names, slash ∉ n) (s : Bytes) :
    Bytes.split slash (lead names ++ s) = names ++ Bytes.split slash s := by
  induction names with
  | nil => rfl
  | cons n names ih =>
    rw [List.forall_mem_cons] at hnames
    rw [lead_cons, List.append_assoc, List.cons_append, Bytes.split_append_sep hnames.1,
      ih hnames.2, List.cons_append]

theorem parts_lead (hparts : ∀ p ∈ names, IsPart p) : parts (lead names) = names := by
  have hsplit := split_lead (fun p hp => (hparts p hp).no_slash) []
  rw [List.append_nil] at hsplit
  rw [parts, hsplit, List.filter_append, filter_parts hparts]
  simp [Bytes.split]

/-- A path that begins like those below a directory goes on with names. -/
theorem eq_joined_of_lead_append {all : List Bytes} (hne : all ≠ []) (hall : ∀ n ∈ all, IsName n)
    (hnames : ∀ n ∈ names, IsName n) (h : joined all = lead names ++ s) :
    ∃ more, more ≠ [] ∧ (∀ n ∈ more, IsName n) ∧ s = joined more := by
  have hsplit : all = names ++ Bytes.split slash s := by
    rw [← split_joined hne fun n hn => (hall n hn).no_slash, h,
      split_lead fun n hn => (hnames n hn).no_slash]
  have hmore := Bytes.split_ne_nil slash s
  refine ⟨Bytes.split slash s, hmore, ?_, ?_⟩
  · intro n hn
    exact hall n (hsplit ▸ List.mem_append_right _ hn)
  · rw [hsplit, joined_append names hmore] at h
    exact (List.append_cancel_left h).symm

theorem parts_absolute (hnames : ∀ n ∈ names, IsName n) : parts (absolute names) = names := by
  by_cases hne : names = []
  · subst hne
    rfl
  · have hsplit : Bytes.split slash (slash :: joined names) = [] :: names := by
      rw [Bytes.split, split_joined hne fun n hn => (hnames n hn).no_slash]
      simp
    rw [parts, absolute, ← joined, hsplit, List.filter_cons,
      filter_parts fun n hn => (hnames n hn).isPart]
    rfl

theorem cleanParts_absolute (hnames : ∀ n ∈ names, IsName n) :
    cleanParts (absolute names) = names := by
  rw [cleanParts, parts_absolute hnames, foldl_push_names _ _ hnames, List.append_nil,
    List.reverse_reverse]

theorem clean_absolute (hnames : ∀ n ∈ names, IsName n) :
    clean (absolute names) = absolute names := by
  have habs : isAbsolute (absolute names) = true := rfl
  rw [clean, if_pos habs, cleanParts_absolute hnames]

/-- Below a clean absolute path a name is one more name. -/
theorem join_absolute (hnames : ∀ m ∈ names, IsName m) (hn : IsName n) :
    join (absolute names) n = absolute (names ++ [n]) := by
  have habs : isAbsolute (absolute names ++ slash :: n) = true := rfl
  have hclean : cleanParts (absolute names ++ slash :: n) = names ++ [n] := by
    rw [cleanParts, parts_append _ hn, parts_absolute hnames,
      foldl_push_names _ _ (forall_isName_concat hnames hn), List.append_nil, List.reverse_reverse]
  have hjoin : join (absolute names) n = clean (absolute names ++ slash :: n) := by
    unfold join
    rw [List.isEmpty_eq_false_iff.mpr hn.ne_nil]
    rfl
  rw [hjoin, clean, if_pos habs, hclean]

/-- A byte of a path with one more name is one of the path or of the name, unless it is a slash. -/
theorem elem_absolute_concat {b : UInt8} (hb : b ≠ slash) :
    List.elem b (absolute (names ++ [n])) = (List.elem b (absolute names) || List.elem b n) := by
  rw [Bool.eq_iff_iff, Bool.or_eq_true]
  simp only [List.elem_eq_contains, List.contains_iff_mem, absolute, List.mem_cons, hb, false_or]
  by_cases hne : names = []
  · subst hne
    simp [Bytes.join]
  · rw [← joined, ← joined, joined_concat hne]
    simp [hb]

/-- At the root there is no way up, so a clean absolute path is made of names. -/
theorem isName_of_mem_cleanParts (habs : isAbsolute s = true) : ∀ n ∈ cleanParts s, IsName n := by
  have hclean := isClean_cleanParts s
  rw [habs] at hclean
  exact fun n hn => hclean.isName n (List.mem_reverse.mpr hn)

/-- Seen from an absolute path, every path is clean and absolute. -/
theorem exists_names_of_seenFrom {cwd : Bytes} (hcwd : isAbsolute cwd = true) (s : Bytes) :
    ∃ names, (∀ m ∈ names, IsName m) ∧ seenFrom cwd s = absolute names := by
  have hclean {u : Bytes} (hu : isAbsolute u = true) :
      ∃ names, (∀ m ∈ names, IsName m) ∧ clean u = absolute names :=
    ⟨cleanParts u, isName_of_mem_cleanParts hu, by rw [clean, if_pos hu]⟩
  unfold seenFrom
  by_cases hs : isAbsolute s = true
  · rw [if_pos hs]
    exact hclean hs
  · rw [if_neg hs, join]
    cases cwd with
    | nil => cases hcwd
    | cons b cwd =>
      cases s with
      | nil => exact hclean hcwd
      | cons c s => exact hclean hcwd

/-- The way to a directory goes up first, or only goes on. -/
theorem relativeParts_cases (base target : List Bytes) :
    (relativeParts base target).head? = some dotDot ∨
      target = base ++ relativeParts base target := by
  fun_induction relativeParts base target with
  | case1 b base t target heq ih =>
    obtain rfl := beq_iff_eq.mp heq
    rcases ih with h | h
    · exact .inl h
    · exact .inr (congrArg (b :: ·) h)
  | case2 b base t target hne => exact .inl rfl
  | case3 base target hshort =>
    cases base with
    | nil => exact .inr rfl
    | cons b base => exact .inl rfl

theorem relativeParts_append (base way : List Bytes) : relativeParts base (base ++ way) = way := by
  induction base with
  | nil => simp [relativeParts]
  | cons b base ih => simpa [relativeParts] using ih

end Below

end Path

/-! ## Directories above a path -/

namespace Filter

open ClassOutline.Path

variable {names : List Bytes} {n : Bytes}

theorem mem_beginnings {α : Type} {l x : List α} : x ∈ beginnings l ↔ x ≠ [] ∧ x <+: l := by
  induction l generalizing x with
  | nil => simp [beginnings]
  | cons a l ih =>
    cases x with
    | nil => simp [beginnings]
    | cons b x =>
      by_cases hx : x = []
      · subst hx
        simp [beginnings, List.cons_prefix_cons, eq_comm]
      · simp [beginnings, List.cons_prefix_cons, ih, hx, eq_comm, and_comm]

/-- The directories above a path are the shorter lists of names. -/
theorem enclosing_joined (hnames : ∀ n ∈ names, IsName n) (hn : IsName n) :
    enclosing (joined (names ++ [n])) = (beginnings names).map joined := by
  by_cases hne : names = []
  · subst hne
    simp [enclosing, uptoSlash_of_not_mem hn.no_slash, cleanParts, parts, Bytes.split, beginnings]
  · unfold enclosing
    rw [joined_concat hne, uptoSlash_append hn.no_slash]
    simp only [isAbsolute_joined hne hnames, cleanParts_joined_slash hne hnames]
    rfl

/-- A directory of a tree is left out if it is hidden or ignored. -/
theorem skipsDir_joined (f : Filter) (hnames : ∀ m ∈ names ++ [n], IsName m) :
    f.skipsDir (joined (names ++ [n])) =
      (n.head? == some 0x2E || f.ignored (joined (names ++ [n]))) := by
  have hn : IsName n := hnames n (by simp)
  have hne : joined (names ++ [n]) ≠ [] :=
    joined_ne_nil (by simp) fun m hm => (hnames m hm).ne_nil
  have hdot : joined (names ++ [n]) ≠ dot := by
    intro h
    have hbase : base (joined (names ++ [n])) = n := base_joined hn
    rw [h] at hbase
    exact hn.ne_dot (hbase.symm.trans (by decide))
  simp [skipsDir, hne, hdot, base_joined hn]

/-- A file lies in no directory that is left out if none of them has a hidden name or is ignored. -/
theorem all_enclosing_joined (f : Filter) (hnames : ∀ m ∈ names, IsName m) (hn : IsName n) :
    (enclosing (joined (names ++ [n]))).all (fun dir => !f.skipsDir dir) = true ↔
      ∀ up m, up ++ [m] <+: names →
        m.head? ≠ some 0x2E ∧ f.ignored (joined (up ++ [m])) = false := by
  have hdir : ∀ up m, up ++ [m] <+: names → (f.skipsDir (joined (up ++ [m])) = false ↔
      m.head? ≠ some 0x2E ∧ f.ignored (joined (up ++ [m])) = false) := by
    intro up m habove
    rw [skipsDir_joined f fun k hk => hnames k (habove.subset hk)]
    simp
  simp only [enclosing_joined hnames hn, List.all_eq_true, List.forall_mem_map, mem_beginnings,
    Bool.not_eq_true']
  constructor
  · intro h up m habove
    exact (hdir up m habove).mp (h _ ⟨by simp, habove⟩)
  · rintro h dirs ⟨hne, habove⟩
    obtain ⟨up, m, rfl⟩ := List.eq_nil_or_concat' dirs |>.resolve_left hne
    exact (hdir up m habove).mpr (h up m habove)

theorem accepts_eq_true_iff (f : Filter) (path : Bytes) (size : Int) :
    f.accepts path size = true ↔ (0 < f.maxBytes → size ≤ f.maxBytes) ∧ f.ignored path = false ∧
      (enclosing path).all (fun dir => !f.skipsDir dir) = true ∧
      ∃ pattern ∈ f.patterns, Glob.isMatch pattern (base path) = true := by
  have hsize : f.maxBytes ≤ 0 ∨ size ≤ f.maxBytes ↔ 0 < f.maxBytes → size ≤ f.maxBytes := by omega
  simp [accepts, and_assoc, hsize]

end Filter

/-! ## Files in byte order -/

namespace Bytes

theorem before_irrefl (s : Bytes) : before s s = false := by
  induction s with
  | nil => rfl
  | cons b s ih => simp [before, ih]

theorem before_trans {s t u : Bytes} (hst : before s t = true) (htu : before t u = true) :
    before s u = true := by
  induction s generalizing t u with
  | nil =>
    cases u with
    | nil => simp [before] at htu
    | cons c u => rfl
  | cons a s ih =>
    cases t with
    | nil => simp [before] at hst
    | cons b t =>
      cases u with
      | nil => simp [before] at htu
      | cons c u =>
        simp only [before, Bool.or_eq_true, decide_eq_true_eq, Bool.and_eq_true, beq_iff_eq] at *
        -- the first difference of the two pairs decides
        rcases hst with hab | ⟨rfl, hst⟩
        · rcases htu with hbc | ⟨rfl, -⟩
          · exact .inl (UInt8.lt_trans hab hbc)
          · exact .inl hab
        · rcases htu with hac | ⟨rfl, htu⟩
          · exact .inl hac
          · exact .inr ⟨rfl, ih hst htu⟩

theorem before_total (s t : Bytes) : before s t = true ∨ s = t ∨ before t s = true := by
  induction s generalizing t with
  | nil => cases t <;> simp [before]
  | cons a s ih =>
    cases t with
    | nil => simp [before]
    | cons b t =>
      rcases Nat.lt_trichotomy a.toNat b.toNat with hab | hab | hba
      · simp [before, UInt8.lt_iff_toNat_lt.mpr hab]
      · obtain rfl := UInt8.toNat_inj.mp hab
        simpa [before] using ih t
      · simp [before, UInt8.lt_iff_toNat_lt.mpr hba]

/-- What does not come later comes earlier or is the same. -/
theorem before_eq_false_iff {s t : Bytes} :
    before t s = false ↔ before s t = true ∨ s = t := by
  constructor
  · intro h
    rcases before_total s t with hst | rfl | hts
    · exact .inl hst
    · exact .inr rfl
    · rw [hts] at h
      cases h
  · rintro (h | rfl)
    · by_contra hts
      rw [Bool.not_eq_false] at hts
      exact absurd (before_trans h hts) (by simp [before_irrefl])
    · exact before_irrefl s

end Bytes

namespace Scan

/-- One file comes before another in the order of a report. -/
def Before (a b : ScannedFile) : Prop := Bytes.before a.path b.path = true

instance : Std.Irrefl Before := ⟨fun a h => by simp [Before, Bytes.before_irrefl] at h⟩

instance : Std.Antisymm Before :=
  ⟨fun a b hab hba => absurd (Bytes.before_trans hab hba) (by simp [Bytes.before_irrefl])⟩

theorem mem_sortFiles {files : List ScannedFile} {s : ScannedFile} :
    s ∈ sortFiles files ↔ s ∈ files := by
  unfold sortFiles
  exact List.mem_mergeSort

/-- Files with different paths come in the strict byte order of their paths. -/
theorem sortFiles_pairwise {files : List ScannedFile}
    (hpaths : (files.map ScannedFile.path).Nodup) : (sortFiles files).Pairwise Before := by
  have hsorted : (sortFiles files).Pairwise fun a b => (!Bytes.before b.path a.path) = true := by
    apply List.pairwise_mergeSort
    · intro a b c hab hbc
      simp only [Bool.not_eq_true', Bytes.before_eq_false_iff] at *
      rcases hab with hab | hab
      · rcases hbc with hbc | hbc
        · exact .inl (Bytes.before_trans hab hbc)
        · exact .inl (hbc ▸ hab)
      · exact hab ▸ hbc
    · intro a b
      simp only [Bool.or_eq_true, Bool.not_eq_true', Bytes.before_eq_false_iff]
      rcases Bytes.before_total a.path b.path with h | h | h
      · exact .inl (.inl h)
      · exact .inl (.inr h)
      · exact .inr (.inl h)
  have hnodup : ((sortFiles files).map ScannedFile.path).Nodup :=
    ((List.mergeSort_perm files _).map _).nodup_iff.mpr hpaths
  rw [List.nodup_iff_pairwise_ne, List.pairwise_map] at hnodup
  refine (hsorted.and hnodup).imp fun {a b} h => ?_
  rw [Bool.not_eq_true', Bytes.before_eq_false_iff] at h
  exact h.1.resolve_right h.2

/-- Sorting forgets the order in which files were found. -/
theorem sortFiles_congr {a b : List ScannedFile} (ha : (a.map ScannedFile.path).Nodup)
    (hb : (b.map ScannedFile.path).Nodup) (hmem : ∀ s, s ∈ a ↔ s ∈ b) :
    sortFiles a = sortFiles b := by
  apply (sortFiles_pairwise ha).eq_of_mem_iff (sortFiles_pairwise hb)
  intro s
  rw [mem_sortFiles, mem_sortFiles, hmem]

end Scan

end ClassOutline
