import ClassOutline.Extract.Declaration
import Mathlib.Data.List.Basic
import Mathlib.Data.Option.Basic

/-!
# What the pieces of a form read

One law for each piece that forms are made of (`ClassOutline.Read`): what it reads in front of any
continuation that cannot extend it, and, where it succeeds, how the text it was given splits. With
these laws nobody has to unfold a piece again.

The condition "the continuation does not go on with a byte of class `p`" is written
`s.head?.any p = false`, so it holds of the empty continuation and is computed on any other.
-/

namespace ClassOutline

/-- A text that is one word: not empty, and of word bytes only. -/
def Bytes.IsName (s : Bytes) : Prop := s ≠ [] ∧ ∀ b ∈ s, isWord b = true

/-- A text that begins in front of a byte which it does not have ends there as well. -/
theorem Bytes.prefix_of_prefix_append {m s t : Bytes} {c : UInt8} (hc : c ∉ m)
    (h : m <+: s ++ c :: t) : m <+: s := by
  rcases List.prefix_or_prefix_of_prefix h (List.prefix_append s (c :: t)) with hm | ⟨r, rfl⟩
  · exact hm
  · cases r with
    | nil => simp
    | cons b r =>
      -- what goes on behind the first text goes on with the byte
      rw [List.prefix_append_right_inj, List.cons_prefix_cons] at h
      obtain ⟨rfl, -⟩ := h
      simp at hc

/-! ## Runs of a byte class -/

namespace Read

/-- A run of a byte class ends where the class ends. -/
theorem takeWhile_append_stop {p : UInt8 → Bool} {w s : Bytes} (hw : ∀ b ∈ w, p b = true)
    (hs : s.head?.any p = false) : (w ++ s).takeWhile p = w := by
  rw [List.takeWhile_append_of_pos hw]
  cases s with
  | nil => simp
  | cons c s => simp only [List.head?_cons, Option.any_some] at hs; simp [hs]

theorem dropWhile_append_stop {p : UInt8 → Bool} {w s : Bytes} (hw : ∀ b ∈ w, p b = true)
    (hs : s.head?.any p = false) : (w ++ s).dropWhile p = s := by
  rw [List.dropWhile_append_of_pos hw]
  cases s with
  | nil => rfl
  | cons c s => simp only [List.head?_cons, Option.any_some] at hs; simp [hs]

/-- What is left of a text without its leading run does not go on with the run. -/
theorem head?_dropWhile_any {α : Type} (p : α → Bool) (s : List α) :
    (s.dropWhile p).head?.any p = false := by
  have hhead := List.head?_dropWhile_not p s
  cases h : (s.dropWhile p).head? with
  | none => rfl
  | some b => simpa [h] using hhead

theorem of_mem_takeWhile {p : UInt8 → Bool} {s : Bytes} {b : UInt8} (h : b ∈ s.takeWhile p) :
    p b = true :=
  List.all_eq_true.mp List.all_takeWhile b h

/-- A non-empty run in front of a continuation. -/
theorem run1_append {p : UInt8 → Bool} {w s : Bytes} (hne : w ≠ []) (hw : ∀ b ∈ w, p b = true)
    (hs : s.head?.any p = false) : run1 p (w ++ s) = some (w, s) := by
  unfold run1
  rw [takeWhile_append_stop hw hs, dropWhile_append_stop hw hs]
  -- the run is matched on to see that it is not empty
  cases w with
  | nil => exact absurd rfl hne
  | cons b w => rfl

/-- A run that was read is at the front of the text. -/
theorem run1_eq_some {p : UInt8 → Bool} {w s t : Bytes} (h : run1 p s = some (w, t)) :
    s = w ++ t ∧ w ≠ [] ∧ ∀ b ∈ w, p b = true := by
  unfold run1 at h
  split at h
  · cases h
  · next b w' hrun =>
    obtain ⟨rfl, rfl⟩ := Prod.mk.inj (Option.some.inj h)
    refine ⟨?_, List.cons_ne_nil _ _, ?_⟩
    · rw [← hrun, List.takeWhile_append_dropWhile]
    · intro c hc
      rw [← hrun] at hc
      exact of_mem_takeWhile hc

theorem word_append {w s : Bytes} (hne : w ≠ []) (hw : ∀ b ∈ w, Bytes.isWord b = true)
    (hs : s.head?.any Bytes.isWord = false) : word (w ++ s) = some (w, s) :=
  run1_append hne hw hs

/-- In front of anything, a word is read, though it may go on. -/
theorem exists_word_append {w : Bytes} (hw : w.IsName) (s : Bytes) :
    ∃ r, word (w ++ s) = some r := by
  obtain ⟨hne, hword⟩ := hw
  cases w with
  | nil => exact absurd rfl hne
  | cons b w => simp [word, run1, hword b List.mem_cons_self]

/-! ## Separating bytes -/

theorem spaces_eq_self {s : Bytes} (hs : s.head?.any Bytes.isSpace = false) : spaces s = s :=
  dropWhile_append_stop (List.forall_mem_nil _) hs

theorem spaces_blank {s : Bytes} (hs : s.head?.any Bytes.isSpace = false) :
    spaces (0x20 :: s) = s :=
  spaces_eq_self hs

/-- One blank will do where at least one separating byte is wanted. -/
theorem spaces1_blank {s : Bytes} (hs : s.head?.any Bytes.isSpace = false) :
    spaces1 (0x20 :: s) = some s :=
  congrArg some (spaces_eq_self hs)

theorem spaces1_append {gap s : Bytes} (hne : gap ≠ []) (hgap : ∀ b ∈ gap, Bytes.isSpace b = true)
    (hs : s.head?.any Bytes.isSpace = false) : spaces1 (gap ++ s) = some s := by
  cases gap with
  | nil => exact absurd rfl hne
  | cons b gap =>
    simp only [List.cons_append, spaces1, hgap b List.mem_cons_self, if_true]
    exact congrArg some (dropWhile_append_stop (fun c hc => hgap c (List.mem_cons_of_mem _ hc)) hs)

theorem spaces1_eq_none {s : Bytes} (hs : s.head?.any Bytes.isSpace = false) :
    spaces1 s = none := by
  cases s with
  | nil => rfl
  | cons b s =>
    simp only [List.head?_cons, Option.any_some] at hs
    simp [spaces1, hs]

/-- A text splits into its leading separating bytes and the rest. -/
theorem spaces_split (s : Bytes) : ∃ u, s = u ++ spaces s ∧ ∀ b ∈ u, Bytes.isSpace b = true :=
  ⟨s.takeWhile Bytes.isSpace, List.takeWhile_append_dropWhile.symm, fun _ => of_mem_takeWhile⟩

/-- Where separating bytes were read, at least one of them stands in front. -/
theorem spaces1_eq_some {s t : Bytes} (h : spaces1 s = some t) :
    ∃ b u, s = b :: (u ++ t) ∧ Bytes.isSpace b = true ∧ ∀ c ∈ u, Bytes.isSpace c = true := by
  cases s with
  | nil => cases h
  | cons b s =>
    simp only [spaces1] at h
    split at h
    · next hb =>
      obtain ⟨u, hsplit, hu⟩ := spaces_split s
      obtain rfl := Option.some.inj h
      exact ⟨b, u, congrArg (b :: ·) hsplit, hb, hu⟩
    · cases h

/-! ## Fixed texts and single bytes -/

theorem literal_append (k : String) (s : Bytes) : literal k (Bytes.ofString k ++ s) = some s :=
  List.isPrefixOf?_eq_some_iff_append_eq.mpr rfl

theorem literal_eq_some {k : String} {s t : Bytes} (h : literal k s = some t) :
    s = Bytes.ofString k ++ t :=
  (List.isPrefixOf?_eq_some_iff_append_eq.mp h).symm

theorem byte_eq_some {b : UInt8} {s t : Bytes} (h : byte b s = some t) : s = b :: t := by
  cases s with
  | nil => cases h
  | cons c s =>
    simp only [byte, beq_iff_eq] at h
    split at h
    · next hcb => rw [hcb, Option.some.inj h]
    · cases h

@[simp] theorem guard_true : (guard True : Option Unit) = some () := rfl

/-! ## Parentheses and signatures -/

theorem bne_of_not_mem {sep : UInt8} {u : Bytes} (hu : sep ∉ u) :
    ∀ b ∈ u, (b != sep) = true := by
  intro b hb
  rw [bne_iff_ne]
  rintro rfl
  exact hu hb

/-- A text is cut at the first separator. -/
theorem cut?_append {sep : UInt8} {u : Bytes} (hu : sep ∉ u) (s : Bytes) :
    Bytes.cut? sep (u ++ sep :: s) = some (u, s) := by
  have hstop : (sep :: s).head?.any (· != sep) = false := by simp
  unfold Bytes.cut?
  rw [dropWhile_append_stop (bne_of_not_mem hu) hstop,
    takeWhile_append_stop (bne_of_not_mem hu) hstop]

theorem parenthesized_append {u : Bytes} (hu : (0x29 : UInt8) ∉ u) (s : Bytes) :
    parenthesized (0x28 :: (u ++ 0x29 :: s)) = some (u, s) :=
  cut?_append hu s

/-- A name with a parameter list right behind it. -/
theorem signature_append {w u : Bytes} (hne : w ≠ []) (hw : ∀ b ∈ w, Bytes.isWord b = true)
    (hu : (0x29 : UInt8) ∉ u) (s : Bytes) :
    signature (w ++ 0x28 :: (u ++ 0x29 :: s)) = some ((w, u), s) := by
  have hword : word (w ++ 0x28 :: (u ++ 0x29 :: s)) = some (w, 0x28 :: (u ++ 0x29 :: s)) :=
    word_append hne hw rfl
  have hspaces : spaces (0x28 :: (u ++ 0x29 :: s)) = 0x28 :: (u ++ 0x29 :: s) :=
    spaces_eq_self rfl
  simp [signature, hword, hspaces, parenthesized_append hu]

/-! ## Reading backwards

From a piece that succeeded to the text it was given. -/

theorem word_eq_some {w s t : Bytes} (h : word s = some (w, t)) :
    s = w ++ t ∧ Bytes.IsName w ∧ t.head?.any Bytes.isWord = false := by
  obtain ⟨hsplit, hne, hw⟩ := run1_eq_some h
  refine ⟨hsplit, ⟨hne, hw⟩, ?_⟩
  unfold word run1 at h
  split at h
  · cases h
  · obtain ⟨-, rfl⟩ := Prod.mk.inj (Option.some.inj h)
    exact head?_dropWhile_any Bytes.isWord s

theorem spaces_suffix (s : Bytes) : spaces s <:+ s := List.dropWhile_suffix _

theorem spaces1_split {s t : Bytes} (h : spaces1 s = some t) :
    ∃ gap, s = gap ++ t ∧ gap ≠ [] ∧ ∀ b ∈ gap, Bytes.isSpace b = true := by
  obtain ⟨b, u, rfl, hb, hu⟩ := spaces1_eq_some h
  refine ⟨b :: u, rfl, List.cons_ne_nil b u, ?_⟩
  intro c hc
  rcases List.mem_cons.mp hc with rfl | hc
  · exact hb
  · exact hu c hc

theorem spaces1_suffix {s t : Bytes} (h : spaces1 s = some t) : t <:+ s := by
  obtain ⟨b, u, rfl, -, -⟩ := spaces1_eq_some h
  exact ⟨b :: u, rfl⟩

theorem byte_suffix {b : UInt8} {s t : Bytes} (h : byte b s = some t) : t <:+ s := by
  rw [byte_eq_some h]
  exact List.suffix_cons b t

theorem cut?_eq_some {sep : UInt8} {s u t : Bytes} (h : Bytes.cut? sep s = some (u, t)) :
    s = u ++ sep :: t ∧ sep ∉ u := by
  unfold Bytes.cut? at h
  split at h
  · cases h
  · next b after hdrop =>
    obtain ⟨rfl, rfl⟩ := Prod.mk.inj (Option.some.inj h)
    -- what is dropped ends in front of the separator
    have hb : b = sep := by
      have hstop := head?_dropWhile_any (· != sep) s
      rw [hdrop] at hstop
      simpa using hstop
    constructor
    · rw [← hb, ← hdrop, hb, List.takeWhile_append_dropWhile]
    · intro hmem
      simpa using of_mem_takeWhile hmem

theorem parenthesized_eq_some {s u t : Bytes} (h : parenthesized s = some (u, t)) :
    s = 0x28 :: (u ++ 0x29 :: t) ∧ (0x29 : UInt8) ∉ u := by
  simp only [parenthesized, Option.bind_eq_bind, Option.bind_eq_some_iff] at h
  obtain ⟨s', hbyte, hcut⟩ := h
  obtain ⟨rfl, hu⟩ := cut?_eq_some hcut
  exact ⟨byte_eq_some hbyte, hu⟩

theorem signature_eq_some {w u s t : Bytes} (h : signature s = some ((w, u), t)) :
    Bytes.IsName w ∧ (0x29 : UInt8) ∉ u ∧ t <:+ s := by
  simp only [signature, Option.bind_eq_bind, Option.bind_eq_some_iff, Option.pure_def,
    Option.some.injEq, Prod.mk.injEq, Prod.exists] at h
  obtain ⟨w, s', hword, u, t, hparen, ⟨rfl, rfl⟩, rfl⟩ := h
  obtain ⟨rfl, hw, -⟩ := word_eq_some hword
  obtain ⟨hsplit, hu⟩ := parenthesized_eq_some hparen
  have hsuffix : t <:+ spaces s' := by
    rw [hsplit]
    exact ⟨0x28 :: (u ++ [0x29]), by simp⟩
  exact ⟨hw, hu, hsuffix.trans ((spaces_suffix s').trans (List.suffix_append w s'))⟩

end Read

end ClassOutline
