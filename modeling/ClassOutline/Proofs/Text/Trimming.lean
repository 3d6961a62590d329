import ClassOutline.Proofs.Text.Characters
import ClassOutline.Proofs.Text.Reading
import ClassOutline.Text.Blank
import Mathlib.Data.List.Chain

/-!
# Trimming and collapsing

Two notions of white space meet where a text is put on one line. `Bytes.trim` works on characters
and knows the white space of Unicode, `Bytes.foldSpaces` works on bytes and knows the five bytes that
separate words. Each leaves alone what it makes (`trim_trim`, `IsFolded.foldSpaces_eq`), and so does the
one after the other (`collapse_collapse`): folding does not lay bare any white space at the ends, because it
touches only ASCII bytes and the first and the last character are not among them.

Nothing is assumed of the text. What is left alone is named: `IsTrimmed` and `IsFolded`.
-/

namespace ClassOutline

namespace Bytes

/-! ## Trimmed texts -/

/-- A text without white space at its ends. -/
structure IsTrimmed (s : Bytes) : Prop where
  first : s.runes.head?.any Rune.isBlank = false
  last : s.runes.getLast?.any Rune.isBlank = false

/-- Trimming cuts white space off a text at both ends. -/
theorem exists_trim (s : Bytes) :
    ∃ l m r, s.runes = l ++ m ++ r ∧ s.trim = ofRunes m ∧
      (l.all Rune.isBlank = true ∧ r.all Rune.isBlank = true) ∧
      m.head?.any Rune.isBlank = false ∧ m.getLast?.any Rune.isBlank = false := by
  let rest := s.runes.dropWhile Rune.isBlank
  let m := (rest.reverse.dropWhile Rune.isBlank).reverse
  have hleft : s.runes = s.runes.takeWhile Rune.isBlank ++ rest :=
    List.takeWhile_append_dropWhile.symm
  have hright : rest = m ++ (rest.reverse.takeWhile Rune.isBlank).reverse := by
    rw [← List.reverse_append, List.takeWhile_append_dropWhile, List.reverse_reverse]
  refine ⟨s.runes.takeWhile Rune.isBlank, m, (rest.reverse.takeWhile Rune.isBlank).reverse, ?_, rfl,
    ⟨List.all_takeWhile, ?_⟩, ?_, ?_⟩
  · rw [List.append_assoc, ← hright]
    exact hleft
  · rw [List.all_reverse]
    exact List.all_takeWhile
  · -- what is left begins with the first character that was not cut off on the left
    have hfirst : rest.head?.any Rune.isBlank = false := Read.head?_dropWhile_any _ _
    cases hm : m with
    | nil => rfl
    | cons c m' =>
      rw [hright, hm] at hfirst
      exact hfirst
  · rw [List.getLast?_reverse]
    exact Read.head?_dropWhile_any _ _

theorem trim_isTrimmed (s : Bytes) : s.trim.IsTrimmed := by
  obtain ⟨l, m, r, hrunes, htrim, -, hfirst, hlast⟩ := exists_trim s
  have hm : runes s.trim = m := by
    rw [htrim]
    exact runes_ofRunes_right (runes_ofRunes_left hrunes)
  rw [← hm] at hfirst hlast
  exact ⟨hfirst, hlast⟩

theorem IsTrimmed.trim_eq {s : Bytes} (h : s.IsTrimmed) : s.trim = s := by
  have hkeep : ∀ l : List Rune, l.head?.any Rune.isBlank = false →
      l.dropWhile Rune.isBlank = l := by
    intro l hl
    cases l with
    | nil => rfl
    | cons r l => exact List.dropWhile_cons_of_neg (by simpa using hl)
  have hlast := h.last
  rw [← List.head?_reverse] at hlast
  rw [trim, hkeep _ h.first, hkeep _ hlast, List.reverse_reverse, ofRunes_runes]

@[simp] theorem trim_trim (s : Bytes) : s.trim.trim = s.trim := s.trim_isTrimmed.trim_eq

/-- Trimming brings in no byte. -/
theorem trim_subset (s : Bytes) : s.trim ⊆ s := by
  obtain ⟨l, m, r, hrunes, htrim, -⟩ := exists_trim s
  -- what is left is a stretch of the text
  refine List.IsInfix.subset ⟨ofRunes l, ofRunes r, ?_⟩
  rw [htrim, ← ofRunes_append, ← ofRunes_append, ← hrunes, ofRunes_runes]

/-! ## Separating bytes and characters -/

theorem lt_of_isSpace {b : UInt8} (h : isSpace b = true) : b < 0x80 := by
  simp only [isSpace, Bool.or_eq_true, beq_iff_eq] at h
  rcases h with (((rfl | rfl) | rfl) | rfl) | rfl <;> decide

theorem isBlankCode_of_isSpace {b : UInt8} (h : isSpace b = true) :
    Rune.isBlankCode b.toNat = true := by
  simp only [isSpace, Bool.or_eq_true, beq_iff_eq] at h
  rcases h with (((rfl | rfl) | rfl) | rfl) | rfl <;> rfl

/-- A trimmed text begins with no separating byte. -/
theorem IsTrimmed.head_isSpace {s : Bytes} (h : s.IsTrimmed) : s.head?.any isSpace = false := by
  cases s with
  | nil => rfl
  | cons b s =>
    cases hb : isSpace b with
    | false => exact hb
    | true =>
      have hfirst := h.first
      rw [runes_ascii (lt_of_isSpace hb)] at hfirst
      exact absurd hfirst (by simp [Rune.isBlank, isBlankCode_of_isSpace hb])

theorem IsTrimmed.last_isSpace {s : Bytes} (h : s.IsTrimmed) : s.getLast?.any isSpace = false := by
  rcases List.eq_nil_or_concat s with rfl | ⟨u, b, rfl⟩
  · rfl
  · rw [List.concat_eq_append] at h ⊢
    cases hb : isSpace b with
    | false => simpa using hb
    | true =>
      have hlast := h.last
      have hascii := lt_of_isSpace hb
      rw [runes_append (by simpa using hascii), runes_ascii hascii] at hlast
      exact absurd hlast (by simp [Rune.isBlank, isBlankCode_of_isSpace hb])

/-! ## Folding -/

/-- A text in which all separating bytes are blanks, each between other bytes or at an end. -/
structure IsFolded (s : Bytes) : Prop where
  blank : ∀ b ∈ s, isSpace b = true → b = 0x20
  single : s.IsChain fun a b => ¬(isSpace a = true ∧ isSpace b = true)

theorem foldSpaces_cons_of_not {b : UInt8} (hb : isSpace b = false) (s : Bytes) :
    foldSpaces (b :: s) = b :: foldSpaces s := by
  rw [foldSpaces.eq_def]
  simp [hb]

/-- Of a run of separating bytes the last one becomes the blank. -/
theorem foldSpaces_cons_space {b c : UInt8} (hb : isSpace b = true) (hc : isSpace c = true)
    (s : Bytes) : foldSpaces (b :: c :: s) = foldSpaces (c :: s) := by
  rw [foldSpaces.eq_def]
  simp [hb, hc]

theorem foldSpaces_cons_last {b : UInt8} (hb : isSpace b = true) {s : Bytes}
    (hs : s.head?.any isSpace = false) : foldSpaces (b :: s) = 0x20 :: foldSpaces s := by
  rw [foldSpaces.eq_def]
  cases s with
  | nil => simp [hb, foldSpaces]
  | cons c s =>
    have hc : isSpace c = false := by simpa using hs
    simp [hb, hc]

/-- Folding keeps a separating byte at the front, and adds none. -/
theorem head_foldSpaces (s : Bytes) :
    (foldSpaces s).head?.any isSpace = s.head?.any isSpace := by
  have hblank : isSpace 0x20 = true := rfl
  fun_induction foldSpaces s with
  | case1 => rfl
  | case2 b hb c s hc ih => simpa [hb, hc] using ih
  | case3 b hb c s hc ih => simp [hb, hblank]
  | case4 b hb => simp [hb, hblank]
  | case5 b s hb ih => simp [hb]

theorem mem_foldSpaces {s : Bytes} {b : UInt8} (h : b ∈ foldSpaces s) :
    b = 0x20 ∨ b ∈ s ∧ isSpace b = false := by
  have hlater : ∀ {c : UInt8} {s : Bytes}, (b = 0x20 ∨ b ∈ s ∧ isSpace b = false) →
      b = 0x20 ∨ b ∈ c :: s ∧ isSpace b = false :=
    fun h => h.imp_right fun h => ⟨List.mem_cons_of_mem _ h.1, h.2⟩
  fun_induction foldSpaces s with
  | case1 => cases h
  | case2 c hc d s hd ih => exact hlater (ih h)
  | case3 c hc d s hd ih =>
    rcases List.mem_cons.mp h with h | h
    · exact .inl h
    · exact hlater (ih h)
  | case4 c hc => exact .inl (List.mem_singleton.mp h)
  | case5 c s hc ih =>
    rcases List.mem_cons.mp h with rfl | h
    · exact .inr ⟨List.mem_cons_self, by simpa using hc⟩
    · exact hlater (ih h)

theorem foldSpaces_isFolded (s : Bytes) : (foldSpaces s).IsFolded := by
  refine ⟨?_, ?_⟩
  · intro b hb hspace
    rcases mem_foldSpaces hb with rfl | ⟨-, hb⟩
    · rfl
    · rw [hspace] at hb
      cases hb
  · fun_induction foldSpaces s with
    | case1 => exact .nil
    | case2 b hb c s hc ih => exact ih
    | case3 b hb c s hc ih =>
      -- what stands behind the blank is no separating byte, as it is none before folding
      have hhead := head_foldSpaces (c :: s)
      rw [Bool.not_eq_true] at hc
      rw [List.head?_cons, Option.any_some, hc, Option.any_eq_false] at hhead
      rw [List.isChain_cons]
      exact ⟨fun d hd h => by simp [hhead d hd] at h, ih⟩
    | case4 b hb => exact .singleton _
    | case5 b s hb ih =>
      rw [List.isChain_cons]
      exact ⟨fun c _ h => hb h.1, ih⟩

theorem IsFolded.foldSpaces_eq {s : Bytes} (h : s.IsFolded) : foldSpaces s = s := by
  obtain ⟨hblank, hsingle⟩ := h
  induction s with
  | nil => rfl
  | cons b s ih =>
    rw [List.isChain_cons] at hsingle
    have hrest : foldSpaces s = s := ih (fun c hc => hblank c (List.mem_cons_of_mem _ hc)) hsingle.2
    cases hb : isSpace b with
    | false => rw [foldSpaces_cons_of_not hb, hrest]
    | true =>
      have hs : s.head?.any isSpace = false := by
        rw [Option.any_eq_false]
        intro c hc
        simpa [hb] using hsingle.1 c hc
      rw [foldSpaces_cons_last hb hs, hrest, hblank b List.mem_cons_self hb]

/-- There are no two blanks in a row. -/
theorem IsFolded.no_gap {s : Bytes} (h : s.IsFolded) : ¬[0x20, 0x20] <:+: s := by
  intro hgap
  have hchain := List.IsChain.infix h.single hgap
  rw [List.isChain_cons_cons] at hchain
  exact hchain.1 ⟨rfl, rfl⟩

/-! ## Folding and the ends of a text -/

theorem foldSpaces_append_left {w : Bytes} (hw : ∀ b ∈ w, isSpace b = false) (s : Bytes) :
    foldSpaces (w ++ s) = w ++ foldSpaces s := by
  induction w with
  | nil => rfl
  | cons b w ih =>
    rw [List.cons_append, foldSpaces_cons_of_not (hw b List.mem_cons_self),
      ih fun c hc => hw c (List.mem_cons_of_mem _ hc), List.cons_append]

/-- A text may be cut where no run of separating bytes goes on. -/
theorem foldSpaces_append {s : Bytes} (hs : s.head?.any isSpace = false) (t : Bytes) :
    foldSpaces (t ++ s) = foldSpaces t ++ foldSpaces s := by
  fun_induction foldSpaces t with
  | case1 => rfl
  | case2 b hb c t hc ih =>
    rw [List.cons_append, List.cons_append, foldSpaces_cons_space hb hc, ← List.cons_append, ih]
  | case3 b hb c t hc ih =>
    rw [List.cons_append, foldSpaces_cons_last hb (by simpa using hc), ih, List.cons_append]
  | case4 b hb => exact foldSpaces_cons_last hb hs
  | case5 b t hb ih =>
    rw [List.cons_append, foldSpaces_cons_of_not (by simpa using hb), ih, List.cons_append]

/-- What is made of the end of a text stands at the end. -/
theorem foldSpaces_suffix (t s : Bytes) : foldSpaces s <:+ foldSpaces (t ++ s) := by
  have hcons : ∀ (b : UInt8) (s : Bytes), foldSpaces s <:+ foldSpaces (b :: s) := by
    intro b s
    rw [foldSpaces.eq_def (b :: s)]
    simp only
    split
    · split
      · split
        · exact List.suffix_refl _
        · exact List.suffix_cons _ _
      · exact List.nil_suffix
    · exact List.suffix_cons _ _
  induction t with
  | nil => exact List.suffix_refl _
  | cons b t ih => exact ih.trans (hcons b (t ++ s))

theorem ascii_of_isSpace {o : Option UInt8} (h : o.all isSpace = true) :
    o.all (· < 0x80) = true := by
  cases o with
  | none => rfl
  | some b => simpa using lt_of_isSpace h

/-- Up to the first separating byte, and from there on. -/
theorem exists_solid_front (s : Bytes) :
    ∃ w t, s = w ++ t ∧ (∀ b ∈ w, isSpace b = false) ∧ t.head?.all isSpace = true := by
  refine ⟨s.takeWhile (!isSpace ·), s.dropWhile (!isSpace ·), ?_, ?_, ?_⟩
  · exact List.takeWhile_append_dropWhile.symm
  · intro b hb
    simpa using Read.of_mem_takeWhile hb
  · have hstop := Read.head?_dropWhile_any (!isSpace ·) s
    rw [Option.any_eq_false] at hstop
    rw [Option.all_eq_true]
    intro b hb
    simpa using hstop b hb

/-- Up to the last separating byte, and from there on. -/
theorem exists_solid_end (s : Bytes) :
    ∃ t w, s = t ++ w ∧ t.getLast?.all isSpace = true ∧ ∀ b ∈ w, isSpace b = false := by
  obtain ⟨w, t, hsplit, hw, ht⟩ := exists_solid_front s.reverse
  refine ⟨t.reverse, w.reverse, ?_, ?_, ?_⟩
  · rw [← List.reverse_append, ← hsplit, List.reverse_reverse]
  · rw [List.getLast?_reverse]
    exact ht
  · intro b hb
    exact hw b (List.mem_reverse.mp hb)

theorem head_foldSpaces_ascii {t : Bytes} (ht : t.head?.all isSpace = true) :
    (foldSpaces t).head?.all (· < 0x80) = true := by
  apply ascii_of_isSpace
  have hhead := head_foldSpaces t
  cases t with
  | nil => rfl
  | cons b t =>
    rw [List.head?_cons, Option.all_some] at ht
    rw [List.head?_cons, Option.any_some, ht] at hhead
    obtain ⟨c, hc, hspace⟩ := (Option.any_eq_true _ _).mp hhead
    rw [hc]
    exact hspace

theorem last_foldSpaces_ascii {t : Bytes} (ht : t.getLast?.all isSpace = true) :
    (foldSpaces t).getLast?.all (· < 0x80) = true := by
  rcases List.eq_nil_or_concat t with rfl | ⟨u, c, rfl⟩
  · rfl
  · have hc : isSpace c = true := by simpa using ht
    have hblank : foldSpaces [c] = [0x20] := foldSpaces_cons_last hc rfl
    obtain ⟨x, hx⟩ := foldSpaces_suffix u [c]
    rw [List.concat_eq_append, ← hx, hblank, List.getLast?_concat]
    rfl

/-- Folding lays no white space bare: the first and the last character are left as they are. -/
theorem IsTrimmed.foldSpaces {s : Bytes} (h : s.IsTrimmed) : (foldSpaces s).IsTrimmed := by
  by_cases hne : s = []
  · subst hne
    exact h
  refine ⟨?first, ?last⟩
  case first =>
    obtain ⟨w, t, rfl, hw, ht⟩ := exists_solid_front s
    have hwne : w ≠ [] := by
      rintro rfl
      cases t with
      | nil => exact hne rfl
      | cons b t =>
        have hb := h.head_isSpace
        simp_all
    have hfirst := h.first
    rw [runes_append (ascii_of_isSpace ht), List.head?_append_of_ne_nil _ (runes_ne_nil hwne)]
      at hfirst
    rw [foldSpaces_append_left hw, runes_append (head_foldSpaces_ascii ht),
      List.head?_append_of_ne_nil _ (runes_ne_nil hwne)]
    exact hfirst
  case last =>
    obtain ⟨t, w, rfl, ht, hw⟩ := exists_solid_end s
    have hwne : w ≠ [] := by
      rintro rfl
      rw [List.append_nil] at h hne
      rcases List.eq_nil_or_concat t with rfl | ⟨u, c, rfl⟩
      · exact hne rfl
      · have hc := h.last_isSpace
        simp_all
    have hhead : w.head?.any isSpace = false := by
      rw [Option.any_eq_false]
      intro b hb
      exact hw b (List.mem_of_mem_head? hb)
    have hfold : Bytes.foldSpaces w = w := by
      simpa [Bytes.foldSpaces] using foldSpaces_append_left hw []
    have hlast := h.last
    rw [runes_append_of_last (ascii_of_isSpace ht),
      List.getLast?_append_of_ne_nil _ (runes_ne_nil hwne)] at hlast
    rw [foldSpaces_append hhead, hfold, runes_append_of_last (last_foldSpaces_ascii ht),
      List.getLast?_append_of_ne_nil _ (runes_ne_nil hwne)]
    exact hlast

/-! ## Collapsed texts -/

theorem collapse_isTrimmed (s : Bytes) : s.collapse.IsTrimmed := s.trim_isTrimmed.foldSpaces

theorem collapse_isFolded (s : Bytes) : s.collapse.IsFolded := foldSpaces_isFolded s.trim

@[simp] theorem collapse_collapse (s : Bytes) : s.collapse.collapse = s.collapse := by
  rw [collapse, s.collapse_isTrimmed.trim_eq, s.collapse_isFolded.foldSpaces_eq]

-- a no-break space and a vertical tab at the ends, and a byte outside every valid sequence
example : collapse [0xC2, 0xA0, 0x61, 9, 10, 0xFF, 0x62, 11] = [0x61, 0x20, 0xFF, 0x62] := by
  decide

/-- Of the separating bytes only blanks are left. -/
theorem break_not_mem_collapse (s : Bytes) : ∀ b ∈ ([9, 10, 12, 13] : Bytes), b ∉ s.collapse := by
  intro b hb hmem
  have hspace : isSpace b = true ∧ b ≠ 0x20 := by
    simp only [List.mem_cons, List.not_mem_nil, or_false] at hb
    rcases hb with rfl | rfl | rfl | rfl <;> decide
  exact hspace.2 (s.collapse_isFolded.blank b hmem hspace.1)

/-- Collapsing brings in no byte but blanks. -/
theorem mem_of_mem_collapse {s : Bytes} {b : UInt8} (hb : b ≠ 0x20) (h : b ∈ s.collapse) :
    b ∈ s := by
  rcases mem_foldSpaces h with h | ⟨h, -⟩
  · exact absurd h hb
  · exact s.trim_subset h

end Bytes

end ClassOutline
