import ClassOutline.Text.Bytes
import Mathlib.Data.List.Basic

/-!
# Pieces of a text

A text is cut at every occurrence of a separator (`Bytes.split`), and pieces are put together with a
separator between neighbours (`Bytes.join`). No piece has the separator in it (`mem_split`), so cutting
and joining take each other back (`join_split`, `split_join`), and the pieces of a text with a
separator in the middle are those of its two sides (`split_append`).
-/

namespace ClassOutline.Bytes

/-! ## Cutting -/

theorem split_ne_nil (sep : UInt8) (s : Bytes) : split sep s ≠ [] := by
  fun_cases split sep s <;> simp

theorem exists_split_cons (sep : UInt8) (s : Bytes) :
    ∃ more, split sep s = s.takeWhile (· != sep) :: more := by
  fun_induction split sep s with
  | case1 => exact ⟨[], rfl⟩
  | case2 b s hb ih => exact ⟨split sep s, by simp [bne, hb]⟩
  | case3 b s hb hnil ih => exact absurd hnil (split_ne_nil sep s)
  | case4 b s hb first more hsplit ih =>
    obtain ⟨_, h⟩ := ih
    obtain ⟨rfl, -⟩ := List.cons.inj (hsplit.symm.trans h)
    exact ⟨more, by simp [bne, hb]⟩

theorem mem_split {sep : UInt8} {s piece : Bytes} (h : piece ∈ split sep s) :
    sep ∉ piece ∧ piece ⊆ s := by
  fun_induction split sep s generalizing piece with
  | case1 =>
    obtain rfl := List.mem_singleton.mp h
    exact ⟨List.not_mem_nil, List.Subset.refl _⟩
  | case2 b s hb ih =>
    rcases List.mem_cons.mp h with rfl | h
    · exact ⟨List.not_mem_nil, List.nil_subset _⟩
    · exact (ih h).imp_right (List.subset_cons_of_subset b)
  | case3 b s hb hnil ih => exact absurd hnil (split_ne_nil sep s)
  | case4 b s hb first more hsplit ih =>
    rw [hsplit] at ih
    rcases List.mem_cons.mp h with rfl | h
    · -- the byte goes to the first piece of the rest
      obtain ⟨hsep, hsub⟩ := ih List.mem_cons_self
      have hne : sep ≠ b := fun h => hb (beq_iff_eq.mpr h.symm)
      exact ⟨List.not_mem_cons_of_ne_of_not_mem hne hsep, List.cons_subset_cons b hsub⟩
    · exact (ih (List.mem_cons_of_mem _ h)).imp_right (List.subset_cons_of_subset b)

theorem split_append (sep : UInt8) (u s : Bytes) :
    split sep (u ++ sep :: s) = split sep u ++ split sep s := by
  fun_induction split sep u with
  | case1 => simp [split]
  | case2 b u hb ih => simp [split, hb, ih]
  | case3 b u hb hnil ih => exact absurd hnil (split_ne_nil sep u)
  | case4 b u hb piece pieces hsplit ih => simp [split, hb, ih, hsplit]

theorem split_of_not_mem {sep : UInt8} {u : Bytes} (hu : sep ∉ u) : split sep u = [u] := by
  induction u with
  | nil => rfl
  | cons b u ih =>
    simp only [List.mem_cons, not_or] at hu
    have hb : (b == sep) = false := by simpa using Ne.symm hu.1
    rw [split, hb, ih hu.2]
    rfl

theorem split_append_sep {sep : UInt8} {u : Bytes} (hu : sep ∉ u) (s : Bytes) :
    split sep (u ++ sep :: s) = u :: split sep s := by
  rw [split_append, split_of_not_mem hu, List.singleton_append]

theorem length_split (sep : UInt8) (s : Bytes) : (split sep s).length = s.count sep + 1 := by
  fun_induction split sep s with
  | case1 => rfl
  | case2 b s hb ih => simp [beq_iff_eq.mp hb, ih]
  | case3 b s hb hnil ih => exact absurd hnil (split_ne_nil sep s)
  | case4 b s hb piece pieces hsplit ih =>
    rw [hsplit] at ih
    have hne : b ≠ sep := fun h => hb (beq_iff_eq.mpr h)
    rw [List.count_cons_of_ne hne]
    exact ih

/-! ## Joining -/

@[simp] theorem join_nil (sep : Bytes) : join sep [] = [] := rfl

@[simp] theorem join_singleton (sep p : Bytes) : join sep [p] = p := rfl

theorem join_cons_cons (sep : UInt8) (p q : Bytes) (pieces : List Bytes) :
    join [sep] (p :: q :: pieces) = p ++ sep :: join [sep] (q :: pieces) := by
  simp [join]

/-- Nothing is lost when a text is cut. -/
@[simp] theorem join_split (sep : UInt8) (s : Bytes) : join [sep] (split sep s) = s := by
  fun_induction split sep s with
  | case1 => rfl
  | case2 b s hb ih =>
    obtain ⟨p, pieces, hsplit⟩ := List.exists_cons_of_ne_nil (split_ne_nil sep s)
    rw [hsplit, join_cons_cons, ← hsplit, ih, beq_iff_eq.mp hb, List.nil_append]
  | case3 b s hb hnil ih => exact absurd hnil (split_ne_nil sep s)
  | case4 b s hb piece pieces hsplit ih =>
    rw [hsplit] at ih
    -- the byte goes to the first piece, alone or with others behind it
    cases pieces with
    | nil => exact congrArg (b :: ·) ih
    | cons q pieces =>
      rw [join_cons_cons] at ih ⊢
      exact congrArg (b :: ·) ih

/-- Pieces that were joined by a separator are found again. -/
theorem split_join {sep : UInt8} {pieces : List Bytes} (hne : pieces ≠ [])
    (hpieces : ∀ p ∈ pieces, sep ∉ p) : split sep (join [sep] pieces) = pieces := by
  induction pieces with
  | nil => exact absurd rfl hne
  | cons p pieces ih =>
    obtain ⟨hp, hrest⟩ := List.forall_mem_cons.mp hpieces
    cases pieces with
    | nil => exact split_of_not_mem hp
    | cons q pieces =>
      rw [join_cons_cons, split_append_sep hp, ih (List.cons_ne_nil _ _) hrest]

theorem of_mem_join {sep : Bytes} {pieces : List Bytes} {b : UInt8} (h : b ∈ join sep pieces) :
    b ∈ sep ∨ ∃ p ∈ pieces, b ∈ p := by
  fun_induction join sep pieces with
  | case1 => exact absurd h List.not_mem_nil
  | case2 piece => exact .inr ⟨piece, List.mem_singleton_self piece, h⟩
  | case3 piece pieces hmore ih =>
    obtain (h | h) | h := (List.mem_append.mp h).imp_left List.mem_append.mp
    · exact .inr ⟨piece, List.mem_cons_self, h⟩
    · exact .inl h
    · exact (ih h).imp_right fun ⟨p, hp, hb⟩ => ⟨p, List.mem_cons_of_mem _ hp, hb⟩

end ClassOutline.Bytes
