import ClassOutline.Proofs.Text.Padding
import ClassOutline.Proofs.Text.Words

/-!
# What collapsing keeps

A text is put on one line by trimming it and folding each run of separating bytes to one blank
(`Bytes.collapse`). The two steps know different white space, and the folding looks at bytes, so a
character could come apart or two could grow together. Neither happens, because a separating byte is
a character of its own: whatever can be told of a text from its two sides around each separating byte
is not changed by folding (`apply_foldSpaces`). The characters that are no white space
(`Bytes.withoutBlanks`) and the words are of this kind.
-/

namespace ClassOutline.Bytes

/-- A text without its white space. -/
def withoutBlanks (s : Bytes) : Bytes := ofRunes (s.runes.filter fun c => !c.isBlank)

/-! ## Separating bytes -/

/-- Folding changes nothing that separating bytes cut in two. -/
theorem apply_foldSpaces {α : Type} {f : Bytes → List α} (hnil : f [] = [])
    (hcut : ∀ (u s : Bytes) (b : UInt8), isSpace b = true → f (u ++ b :: s) = f u ++ f s)
    (s : Bytes) : f (foldSpaces s) = f s := by
  have hfirst : ∀ (s : Bytes) (b : UInt8), isSpace b = true → f (b :: s) = f s := by
    intro s b hb
    simpa [hnil] using hcut [] s b hb
  -- the bytes passed since the last separating one are kept in front
  suffices h : ∀ u, f (u ++ foldSpaces s) = f (u ++ s) from h []
  fun_induction foldSpaces s with
  | case1 => exact fun _ => rfl
  | case2 b hb c s hc ih =>
    intro u
    rw [ih, hcut _ _ _ hb, hcut _ _ _ hc, hfirst _ _ hc]
  | case3 b hb c s hc ih =>
    intro u
    have hrest : f (foldSpaces (c :: s)) = f (c :: s) := ih []
    rw [hcut _ _ _ rfl, hcut _ _ _ hb, hrest]
  | case4 b hb =>
    intro u
    rw [hcut _ _ _ rfl, hcut _ _ _ hb]
  | case5 b s hb ih =>
    intro u
    simpa using ih (u ++ [b])

theorem withoutBlanks_append_space {b : UInt8} (hb : isSpace b = true) (u s : Bytes) :
    withoutBlanks (u ++ b :: s) = withoutBlanks u ++ withoutBlanks s := by
  have hascii := lt_of_isSpace hb
  have hblank : Rune.isBlank ⟨b.toNat, [b]⟩ = true := isBlankCode_of_isSpace hb
  rw [withoutBlanks, runes_append (by simpa using hascii), runes_ascii hascii, List.filter_append,
    List.filter_cons_of_neg (by simp [hblank]), ofRunes_append]
  rfl

theorem isWord_of_isSpace {b : UInt8} (hb : isSpace b = true) : isWord b = false := by
  rw [Bool.eq_false_iff]
  intro hword
  rw [isSpace_of_isWord hword] at hb
  cases hb

/-! ## White space at the ends -/

theorem withoutBlanks_trim (s : Bytes) : s.trim.withoutBlanks = s.withoutBlanks := by
  have hnone : ∀ {t : Bytes}, t.isBlank = true → t.runes.filter (fun c => !c.isBlank) = [] := by
    intro t ht
    rw [List.filter_eq_nil_iff]
    intro c hc
    simp [List.all_eq_true.mp ht c hc]
  obtain ⟨l, r, hl, hr, hs⟩ := exists_padding s
  have hruns : s.runes = l.runes ++ (s.trim.runes ++ r.runes) := by
    rw [← runes_padded hl hr, ← hs]
  rw [withoutBlanks, withoutBlanks, hruns, List.filter_append, List.filter_append, hnone hl, hnone hr,
    List.append_nil, List.nil_append]

theorem isWord_of_isBlank {s : Bytes} (h : s.isBlank = true) : ∀ b ∈ s, isWord b = false := by
  intro b hb
  rw [Bool.eq_false_iff]
  intro hword
  -- a byte of a word lies between the ASCII blanks and the white space beyond ASCII
  have hsolid : 0x20 < b.toNat ∧ b.toNat < 0x80 := by
    simp [isWord, isLetter, isDigit, UInt8.le_iff_toNat_le, ← UInt8.toNat_inj] at hword
    omega
  have hblank := isBlankCode_of_mem h hb (UInt8.lt_iff_toNat_lt.mpr hsolid.2)
  simp only [Rune.isBlankCode, Bool.or_eq_true, Bool.and_eq_true, decide_eq_true_eq,
    beq_iff_eq] at hblank
  omega

/-- Bytes of no word add no word in front of a text or behind it. -/
theorem words_surrounded {l r : Bytes} (hl : ∀ b ∈ l, isWord b = false)
    (hr : ∀ b ∈ r, isWord b = false) (s : Bytes) : words (l ++ (s ++ r)) = words s := by
  have hfront : ∀ (t u : Bytes), (∀ b ∈ t, isWord b = false) → words (t ++ u) = words u := by
    intro t u ht
    induction t with
    | nil => rfl
    | cons b t ih =>
      rw [List.forall_mem_cons] at ht
      rw [List.cons_append, words_sep ht.1, ih ht.2]
  rw [hfront l _ hl]
  cases r with
  | nil => rw [List.append_nil]
  | cons b r =>
    rw [List.forall_mem_cons] at hr
    have hrest : words r = [] := by simpa using hfront r [] hr.2
    rw [words_append_sep hr.1, hrest, List.append_nil]

theorem words_trim (s : Bytes) : words s.trim = words s := by
  obtain ⟨l, r, hl, hr, hs⟩ := exists_padding s
  conv_rhs => rw [hs, words_surrounded (isWord_of_isBlank hl) (isWord_of_isBlank hr)]

/-! ## Collapsing -/

theorem withoutBlanks_collapse (s : Bytes) : s.collapse.withoutBlanks = s.withoutBlanks := by
  rw [collapse, apply_foldSpaces rfl fun u s b hb => withoutBlanks_append_space hb u s,
    withoutBlanks_trim]

theorem words_collapse (s : Bytes) : words s.collapse = words s := by
  rw [collapse, apply_foldSpaces rfl fun u s b hb => words_append_sep (isWord_of_isSpace hb) u s,
    words_trim]

/-- **A collapsed text is on one line and has the same content.** Of the separating bytes only single
blanks are left in it, no white space character is written at its beginning or its end, and collapsing
it again changes nothing. All its bytes but those of white space are the bytes of the text, in their
order, also where they are no UTF-8, and its words are the words of the text. -/
theorem collapse_normal (s : Bytes) :
    (∀ b ∈ ([9, 10, 12, 13] : Bytes), b ∉ s.collapse) ∧ ¬ [0x20, 0x20] <:+: s.collapse ∧
    (∀ c, Rune.isBlankCode c = true →
      ¬ ofCodePoint c <+: s.collapse ∧ ¬ ofCodePoint c <:+ s.collapse) ∧
    s.collapse.collapse = s.collapse ∧
    s.collapse.withoutBlanks = s.withoutBlanks ∧ words s.collapse = words s := by
  have hfolded := s.collapse_isFolded
  have htrimmed := isTrimmed_iff.mp s.collapse_isTrimmed
  exact ⟨s.break_not_mem_collapse, hfolded.no_gap, htrimmed, s.collapse_collapse,
    withoutBlanks_collapse s, words_collapse s⟩

/-- A no-break space in front, a tab and a newline between, a vertical tab inside, and behind a byte
that begins no character a next line and a blank. -/
theorem collapse_normal_awkward :
    let s : Bytes := [0xC2, 0xA0, 0x61, 9, 10, 0xFF, 11, 0x62, 0xE2, 0xC2, 0x85, 32]
    s.collapse = [0x61, 32, 0xFF, 11, 0x62, 0xE2] ∧ 10 ∉ s.collapse ∧
      ¬ ofCodePoint 0x85 <:+ s.collapse ∧ s.collapse.withoutBlanks = [0x61, 0xFF, 0x62, 0xE2] := by
  intro s
  obtain ⟨hbreaks, -, hends, -, hcontent, -⟩ := collapse_normal s
  exact ⟨by decide, hbreaks 10 (by decide), (hends 0x85 (by decide)).2, hcontent.trans (by decide)⟩

end ClassOutline.Bytes
