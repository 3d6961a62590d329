import ClassOutline.Proofs.Text.Encoding
import ClassOutline.Proofs.Text.Trimming
import Mathlib.Data.List.TakeWhile

/-!
# White space around a text

White space is a matter of characters, and characters are read from the left. What stands at the end
of a text, behind bytes that may be no UTF-8, is nevertheless the same from either side: white space
is UTF-8, and a text may be cut in front of a part in UTF-8 and behind one. So white space around a
text is trimmed away whatever the text is (`trim_padded`), nothing else is (`exists_padding`), and a
text is trimmed if no white space character is written at its beginning or its end
(`isTrimmed_iff`), which says nothing about the direction of reading.
-/

namespace ClassOutline

namespace Rune

theorem isScalar_of_isBlankCode {c : Nat} (h : isBlankCode c = true) : IsScalar c := by
  simp only [isBlankCode, Bool.or_eq_true, Bool.and_eq_true, decide_eq_true_eq, beq_iff_eq] at h
  unfold IsScalar
  omega

end Rune

namespace Bytes

variable {s l r : Bytes}

/-! ## Blank texts -/

/-- A white space character is read from its UTF-8 form. -/
theorem encodes_of_isBlank {c : Rune} (hc : c ∈ runes s) (hblank : c.isBlank = true) :
    Rune.Encodes c.code c.bytes := by
  refine (encodes_of_mem_runes hc).resolve_right fun ⟨_, hcode⟩ => ?_
  rw [Rune.isBlank, hcode] at hblank
  exact absurd hblank (by decide)

theorem isUtf8_of_isBlank (h : s.isBlank = true) : s.isUtf8 = true := by
  refine List.all_eq_true.mpr fun c hc => ?_
  simp [(encodes_of_isBlank hc (List.all_eq_true.mp h c hc)).not_isInvalid]

/-- In a blank text, an ASCII byte is a white space character. -/
theorem isBlankCode_of_mem {b : UInt8} (h : s.isBlank = true) (hb : b ∈ s) (hascii : b < 0x80) :
    Rune.isBlankCode b.toNat = true := by
  rw [← s.ofRunes_runes] at hb
  obtain ⟨c, hc, hmem⟩ := List.mem_flatMap.mp hb
  have hblank : Rune.isBlankCode c.code = true := List.all_eq_true.mp h c hc
  have hform := encodes_of_isBlank hc hblank
  -- a longer form has no ASCII byte in it
  have hwide : ∀ {low high : Nat} {d : UInt8}, 0x80 ≤ low → Rune.within low high d = true → b ≠ d :=
    fun hlow hd heq => UInt8.not_lt.mpr (Rune.le_of_within hlow hd) (heq ▸ hascii)
  generalize c.code = code, c.bytes = bytes at hform hblank hmem
  cases hform with
  | one =>
    obtain rfl := List.mem_singleton.mp hmem
    exact hblank
  | two hd he => simp [hwide (by decide) hd, hwide (by decide) he] at hmem
  | three hd he hf =>
    simp [hwide (by decide) hd, hwide (Rune.le_secondBounds _) he, hwide (by decide) hf] at hmem
  | four hd he hf hg =>
    simp [hwide (by decide) hd, hwide (Rune.le_secondBounds _) he, hwide (by decide) hf,
      hwide (by decide) hg] at hmem

theorem runes_padded (hl : l.isBlank = true) (hr : r.isBlank = true) (s : Bytes) :
    runes (l ++ (s ++ r)) = runes l ++ (runes s ++ runes r) := by
  rw [runes_isUtf8_append (isUtf8_of_isBlank hl), runes_append_of_isUtf8 (isUtf8_of_isBlank hr)]

theorem trim_of_isBlank (h : s.isBlank = true) : s.trim = [] := by
  have hall : s.runes.dropWhile Rune.isBlank = [] :=
    List.dropWhile_eq_nil_iff.mpr (List.all_eq_true.mp h)
  rw [trim, hall]
  rfl

/-! ## Padded texts -/

/-- White space around a text is trimmed away. -/
theorem trim_padded (hl : l.isBlank = true) (hr : r.isBlank = true) (s : Bytes) :
    trim (l ++ (s ++ r)) = s.trim := by
  have hleft : ∀ c ∈ runes l, c.isBlank = true := List.all_eq_true.mp hl
  have hright : ∀ c ∈ (runes r).reverse, c.isBlank = true :=
    fun c hc => List.all_eq_true.mp hr c (List.mem_reverse.mp hc)
  rw [trim, trim, runes_padded hl hr, List.dropWhile_append_of_pos hleft, List.dropWhile_append]
  split
  · -- the text is blank itself
    rename_i hblank
    rw [List.isEmpty_iff.mp hblank, List.dropWhile_eq_nil_iff.mpr (List.all_eq_true.mp hr)]
  · rw [List.reverse_append, List.dropWhile_append_of_pos hright]

theorem isBlank_ofRunes {a b : List Rune} (h : runes s = a ++ b) :
    (a.all Rune.isBlank = true → (ofRunes a).isBlank = true) ∧
      (b.all Rune.isBlank = true → (ofRunes b).isBlank = true) := by
  rw [isBlank, isBlank, runes_ofRunes_left h, runes_ofRunes_right h]
  exact ⟨id, id⟩

/-- What is trimmed away is white space. -/
theorem exists_padding (s : Bytes) :
    ∃ l r, l.isBlank = true ∧ r.isBlank = true ∧ s = l ++ (s.trim ++ r) := by
  obtain ⟨a, m, b, hrunes, htrim, ⟨ha, hb⟩, -⟩ := exists_trim s
  refine ⟨ofRunes a, ofRunes b, ?_, (isBlank_ofRunes hrunes).2 hb, ?_⟩
  · rw [List.append_assoc] at hrunes
    exact (isBlank_ofRunes hrunes).1 ha
  · rw [htrim, ← ofRunes_append, ← ofRunes_append, ← List.append_assoc, ← hrunes, ofRunes_runes]

/-! ## Trimmed texts -/

/-- A text is trimmed if it neither begins nor ends with what a white space character is written
as. -/
theorem isTrimmed_iff :
    s.IsTrimmed ↔ ∀ c, Rune.isBlankCode c = true → ¬ ofCodePoint c <+: s ∧ ¬ ofCodePoint c <:+ s := by
  constructor
  · intro h c hc
    have hscalar := Rune.isScalar_of_isBlankCode hc
    have hone : runes (ofCodePoint c) = [⟨c, ofCodePoint c⟩] := by
      simpa using runes_ofCodePoint_append hscalar []
    refine ⟨?first, ?last⟩
    case first =>
      -- whatever follows, the form is read as a character of its own
      rintro ⟨t, rfl⟩
      have hfirst := h.first
      rw [runes_ofCodePoint_append hscalar, List.head?_cons, Option.any_some, Rune.isBlank, hc]
        at hfirst
      cases hfirst
    case last =>
      -- and whatever stands in front, which never takes the form in as the rest of a character
      rintro ⟨t, rfl⟩
      have hlast := h.last
      rw [runes_append_of_isUtf8 (isUtf8_ofCodePoint hscalar), hone, List.getLast?_concat,
        Option.any_some, Rune.isBlank, hc] at hlast
      cases hlast
  · intro h
    refine ⟨?first, ?last⟩
    case first =>
      rw [Option.any_eq_false]
      intro c hc
      obtain ⟨rest, hrunes⟩ := List.head?_eq_some_iff.mp hc
      by_contra hblank
      rw [Bool.not_eq_false] at hblank
      have hform := encodes_of_isBlank (hrunes ▸ List.mem_cons_self) hblank
      apply (h c.code hblank).1
      rw [← hform.eq_ofCodePoint, ← s.ofRunes_runes, hrunes, ofRunes_cons]
      exact List.prefix_append _ _
    case last =>
      rw [Option.any_eq_false]
      intro c hc
      obtain ⟨rest, hrunes⟩ := List.getLast?_eq_some_iff.mp hc
      by_contra hblank
      rw [Bool.not_eq_false] at hblank
      have hform := encodes_of_isBlank (hrunes ▸ List.mem_append_right _ List.mem_cons_self) hblank
      apply (h c.code hblank).2
      rw [← hform.eq_ofCodePoint, ← s.ofRunes_runes, hrunes, ofRunes_append]
      exact ⟨ofRunes rest, by simp [ofRunes]⟩

end Bytes

end ClassOutline
