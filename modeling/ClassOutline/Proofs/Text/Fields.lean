import ClassOutline.Proofs.Text.Occurrences
import ClassOutline.Proofs.Text.Words

/-!
# The last field of a text

A field is text without white space that white space separates from what stands before it. A text
that ends in a field determines the field, the white space in front of it and the rest
(`append_field_inj`), if what stands before the white space does not end in white space itself
(`EndsSolid`). So two ways to put together one text from fields can be compared field by field, from
the right.
-/

namespace ClassOutline.Bytes

/-- The text does not end in white space. -/
def EndsSolid (s : Bytes) : Prop := (lastAfter none s).any isSpace = false

/-- Text without white space. -/
def NoSpace (s : Bytes) : Prop := ∀ b ∈ s, isSpace b = false

/-- White space only, perhaps none. -/
def AllSpace (s : Bytes) : Prop := ∀ b ∈ s, isSpace b = true

variable {x x' g g' y y' : Bytes}

theorem IsName.noSpace (h : x.IsName) : NoSpace x := fun b hb => isSpace_of_isWord (h.2 b hb)

theorem NoSpace.head?_append (hy : NoSpace y) (hne : y ≠ []) (s : Bytes) :
    (y ++ s).head?.any isSpace = false := by
  cases y with
  | nil => exact absurd rfl hne
  | cons b y => exact hy b List.mem_cons_self

/-- A class of bytes without white space does not go on in it. -/
theorem AllSpace.head?_append_any {p : UInt8 → Bool} (hg : AllSpace g) (hne : g ≠ [])
    (hp : ∀ b, p b = true → isSpace b = false) (s : Bytes) : (g ++ s).head?.any p = false := by
  cases g with
  | nil => exact absurd rfl hne
  | cons b g =>
    have hspace := hg b List.mem_cons_self
    cases hb : p b with
    | false => exact hb
    | true =>
      rw [hp b hb] at hspace
      cases hspace

theorem NoSpace.endsSolid_append (hy : NoSpace y) (hne : y ≠ []) (x : Bytes) :
    EndsSolid (x ++ y) := by
  obtain ⟨b, hb, hlast⟩ := lastAfter_mem hne (lastAfter none x)
  rw [EndsSolid, lastAfter_append, hlast]
  exact hy b hb

theorem endsSolid_nil : EndsSolid [] := rfl

theorem EndsSolid.append (h : EndsSolid x) (hne : x ≠ []) (u : Bytes) : EndsSolid (u ++ x) := by
  rw [EndsSolid, lastAfter_append, lastAfter_of_ne_nil hne _ none]
  exact h

theorem AllSpace.eq_nil_of_endsSolid (hg : AllSpace g) (h : EndsSolid (x ++ g)) : g = [] := by
  by_contra hne
  obtain ⟨b, hb, hlast⟩ := lastAfter_mem hne (lastAfter none x)
  rw [EndsSolid, lastAfter_append, hlast, Option.any_some, hg b hb] at h
  cases h

/-- A text has one way to end in white space. -/
theorem append_allSpace_inj (hx : EndsSolid x) (hx' : EndsSolid x') (hg : AllSpace g)
    (hg' : AllSpace g') (h : x ++ g = x' ++ g') : x = x' ∧ g = g' := by
  rcases List.append_eq_append_iff.mp h with ⟨a, rfl, rfl⟩ | ⟨a, rfl, rfl⟩
  · obtain rfl := AllSpace.eq_nil_of_endsSolid (fun b hb => hg b (List.mem_append_left _ hb)) hx'
    simp
  · obtain rfl := AllSpace.eq_nil_of_endsSolid (fun b hb => hg' b (List.mem_append_left _ hb)) hx
    simp

/-- White space, where there is some, and text without any are two ways to end. -/
theorem AllSpace.not_endsSolid (hg : AllSpace g) (hne : g ≠ []) (x : Bytes) :
    ¬ EndsSolid (x ++ g) :=
  fun h => hne (hg.eq_nil_of_endsSolid h)

theorem NoSpace.eq_nil_of_append (hy : NoSpace y) (hg : AllSpace g) (hne : g ≠ [])
    (h : x ++ y = x' ++ g) : y = [] := by
  by_contra hy'
  exact hg.not_endsSolid hne x' (h ▸ hy.endsSolid_append hy' x)

/-- The last field of a text, what stands before it and the white space between them are
determined by the text. -/
theorem append_field_inj (hx : EndsSolid x) (hx' : EndsSolid x') (hg : AllSpace g)
    (hg' : AllSpace g') (hne : g ≠ []) (hne' : g' ≠ []) (hy : NoSpace y) (hy' : NoSpace y')
    (h : x ++ (g ++ y) = x' ++ (g' ++ y')) : x = x' ∧ g = g' ∧ y = y' := by
  rw [← List.append_assoc, ← List.append_assoc] at h
  have hfield : x ++ g = x' ++ g' ∧ y = y' := by
    rcases List.append_eq_append_iff.mp h with ⟨a, hgap, rfl⟩ | ⟨a, hgap, rfl⟩
    · have ha : NoSpace a := fun b hb => hy b (List.mem_append_left _ hb)
      obtain rfl := ha.eq_nil_of_append hg' hne' hgap.symm
      simp [hgap]
    · have ha : NoSpace a := fun b hb => hy' b (List.mem_append_left _ hb)
      obtain rfl := ha.eq_nil_of_append hg hne hgap.symm
      simp [hgap]
  obtain ⟨rfl, rfl⟩ := append_allSpace_inj hx hx' hg hg' hfield.1
  exact ⟨rfl, rfl, hfield.2⟩

end ClassOutline.Bytes
