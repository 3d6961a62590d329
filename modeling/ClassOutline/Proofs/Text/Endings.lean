import ClassOutline.Proofs.Text.Reading
import Mathlib.Data.List.TakeWhile

/-!
# The end of a text

Two functions cut at the end of a text: one takes away the bytes of a class (`Bytes.dropWhileEnd`), the
other a given ending (`Bytes.dropEnding`). Both leave a beginning of the text, and what stands in
front of a byte that stays is not looked at.
-/

namespace ClassOutline.Bytes

variable {p : UInt8 → Bool} {e s u : Bytes}

/-! ## Bytes of a class -/

theorem dropWhileEnd_isPrefix (p : UInt8 → Bool) (s : Bytes) : dropWhileEnd p s <+: s := by
  refine ⟨(s.reverse.takeWhile p).reverse, ?_⟩
  rw [dropWhileEnd, ← List.reverse_append, List.takeWhile_append_dropWhile, List.reverse_reverse]

/-- Only what stands behind the last byte that stays is cut. -/
theorem dropWhileEnd_append (hu : u.getLast?.any p = false) (s : Bytes) :
    dropWhileEnd p (u ++ s) = u ++ dropWhileEnd p s := by
  have hstop : u.reverse.head?.any p = false := by rwa [List.head?_reverse]
  rw [dropWhileEnd, dropWhileEnd, List.reverse_append]
  by_cases hs : s.reverse.dropWhile p = []
  · -- the whole of the second text is cut, and the first one stops there
    have hall := List.dropWhile_eq_nil_iff.mp hs
    rw [Read.dropWhile_append_stop hall hstop, hs]
    simp
  · rw [List.dropWhile_append, if_neg (by simpa using hs)]
    simp

theorem dropWhileEnd_of_last (h : s.getLast?.any p = false) : dropWhileEnd p s = s := by
  simpa [dropWhileEnd] using dropWhileEnd_append h []

/-! ## A given ending -/

theorem dropEnding_append (e s : Bytes) : dropEnding e (s ++ e) = s := by
  simp [dropEnding]

theorem dropEnding_of_not_suffix (h : ¬ e <:+ s) : dropEnding e s = s := by
  rw [dropEnding, if_neg]
  rwa [List.isSuffixOf_iff_suffix]

theorem dropEnding_subset (e s : Bytes) : dropEnding e s ⊆ s := by
  unfold dropEnding
  split
  · exact List.take_subset _ _
  · exact List.Subset.refl _

/-- Nothing is left without the ending of a text that is empty or is the ending itself. -/
theorem dropEnding_eq_nil_iff : dropEnding e s = [] ↔ s = [] ∨ s = e := by
  by_cases h : e <:+ s
  · obtain ⟨t, rfl⟩ := h
    rw [dropEnding_append, List.append_eq_nil_iff, List.append_left_eq_self]
    tauto
  · rw [dropEnding_of_not_suffix h]
    refine ⟨.inl, fun hs => hs.resolve_right ?_⟩
    rintro rfl
    exact h (List.suffix_refl _)

/-- An ending without some byte is the ending of what stands behind the last such byte. -/
theorem suffix_of_suffix_append {c : UInt8} (hc : c ∉ e) (h : e <:+ u ++ c :: s) : e <:+ s := by
  rw [← List.reverse_prefix] at h ⊢
  rw [List.reverse_append, List.reverse_cons, List.append_assoc, List.singleton_append] at h
  exact prefix_of_prefix_append (by simpa using hc) h

end ClassOutline.Bytes
