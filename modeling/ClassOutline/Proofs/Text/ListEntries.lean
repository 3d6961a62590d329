import ClassOutline.Proofs.Text.Padding
import ClassOutline.Proofs.Text.Pieces

/-!
# Entries of a list with commas

A list is cut at its commas, each piece is trimmed, and pieces of which nothing is left are no entries
(`Bytes.listItems`). A comma always ends an entry, so a list is read piece by piece
(`listItems_join`), and a piece stands for one entry or for none. `Bytes.Spaced` says which pieces a
list of entries can be written as: with any white space around each entry, and with any number of
blank pieces before, between and behind them. Reading inverts writing, for all of these spellings and
for nothing else (`listItems_spaced`).
-/

namespace ClassOutline.Bytes

variable {s x : Bytes}

/-- An entry of a list. -/
structure IsItem (s : Bytes) : Prop where
  ne_nil : s ≠ []
  no_comma : (0x2C : UInt8) ∉ s
  trimmed : s.trim = s

/-! ## Entries of a text -/

/-- The entries of a list are made of its bytes, without commas and without white space around. -/
theorem mem_listItems (h : x ∈ listItems s) : x.IsItem ∧ x ⊆ s := by
  simp only [listItems, List.mem_filter, List.mem_map, Bool.not_eq_true', List.isEmpty_eq_false_iff]
    at h
  obtain ⟨⟨piece, hpiece, rfl⟩, hne⟩ := h
  obtain ⟨hcomma, hsub⟩ := mem_split hpiece
  have htrim : piece.trim ⊆ piece := piece.trim_subset
  exact ⟨⟨hne, fun hmem => hcomma (htrim hmem), piece.trim_trim⟩, fun b hb => hsub (htrim hb)⟩

theorem listItems_isItem (h : x ∈ listItems s) : x.IsItem := (mem_listItems h).1

theorem not_mem_listItems {b : UInt8} (hb : b ∉ s) (h : x ∈ s.listItems) : b ∉ x :=
  fun hmem => hb ((mem_listItems h).2 hmem)

@[simp] theorem listItems_nil : listItems [] = [] := rfl

/-- A comma ends an entry, whatever stands on its two sides. -/
theorem listItems_append (a b : Bytes) :
    listItems (a ++ 0x2C :: b) = listItems a ++ listItems b := by
  rw [listItems, split_append, List.map_append, List.filter_append]
  rfl

theorem listItems_join (pieces : List Bytes) :
    listItems (join [0x2C] pieces) = pieces.flatMap listItems := by
  induction pieces with
  | nil => rfl
  | cons p pieces ih =>
    cases pieces with
    | nil => simp
    | cons q pieces => rw [join_cons_cons, listItems_append, ih, ← List.flatMap_cons]

/-! ## One piece -/

theorem comma_not_mem_of_isBlank (h : s.isBlank = true) : (0x2C : UInt8) ∉ s :=
  fun hmem => absurd (isBlankCode_of_mem h hmem (by decide)) (by decide)

theorem listItems_of_not_mem (h : (0x2C : UInt8) ∉ s) :
    listItems s = if s.trim = [] then [] else [s.trim] := by
  rw [listItems, split_of_not_mem h]
  by_cases htrim : s.trim = [] <;> simp [htrim]

theorem listItems_of_isBlank (h : s.isBlank = true) : listItems s = [] := by
  rw [listItems_of_not_mem (comma_not_mem_of_isBlank h), if_pos (trim_of_isBlank h)]

theorem listItems_padded {l r : Bytes} (hl : l.isBlank = true) (hr : r.isBlank = true)
    (hx : x.IsItem) : listItems (l ++ (x ++ r)) = [x] := by
  have hcomma : (0x2C : UInt8) ∉ l ++ (x ++ r) := by
    simp only [List.mem_append, not_or]
    exact ⟨comma_not_mem_of_isBlank hl, hx.no_comma, comma_not_mem_of_isBlank hr⟩
  rw [listItems_of_not_mem hcomma, trim_padded hl hr, hx.trimmed, if_neg hx.ne_nil]

/-! ## Ways to write a list -/

/-- The pieces between commas that some entries can be written as: an entry has any white space around
it, and a blank piece stands for none. -/
inductive Spaced : List Bytes → List Bytes → Prop where
  | nil : Spaced [] []
  | blank {w : Bytes} {pieces items : List Bytes} (hw : w.isBlank = true)
      (rest : Spaced pieces items) : Spaced (w :: pieces) items
  | item {l x r : Bytes} {pieces items : List Bytes} (hl : l.isBlank = true) (hr : r.isBlank = true)
      (rest : Spaced pieces items) : Spaced ((l ++ (x ++ r)) :: pieces) (x :: items)

/-- What was written is read. -/
theorem Spaced.listItems_eq {pieces items : List Bytes} (h : Spaced pieces items)
    (hitems : ∀ x ∈ items, IsItem x) : listItems (join [0x2C] pieces) = items := by
  rw [listItems_join]
  -- each way to go on writing adds the entry that is read from its piece, if any
  induction h with
  | nil => rfl
  | blank hw _ ih => rw [List.flatMap_cons, listItems_of_isBlank hw, List.nil_append, ih hitems]
  | item hl hr _ ih =>
    rw [List.forall_mem_cons] at hitems
    rw [List.flatMap_cons, listItems_padded hl hr hitems.1, ih hitems.2, List.singleton_append]

/-- What is read was written, if no comma hides in a piece. -/
theorem spaced_listItems {pieces : List Bytes} (h : ∀ p ∈ pieces, (0x2C : UInt8) ∉ p) :
    Spaced pieces (pieces.flatMap listItems) := by
  induction pieces with
  | nil => exact .nil
  | cons p pieces ih =>
    rw [List.forall_mem_cons] at h
    obtain ⟨l, r, hl, hr, hp⟩ := exists_padding p
    rw [List.flatMap_cons, listItems_of_not_mem h.1]
    split
    · -- nothing is left of the piece, so all of it was white space
      rename_i htrim
      have hblank : p.isBlank = true := by
        rw [hp, htrim, isBlank, runes_padded hl hr, List.all_append]
        exact Bool.and_eq_true_iff.mpr ⟨hl, hr⟩
      exact .blank hblank (ih h.2)
    · have hspaced : Spaced ((l ++ (p.trim ++ r)) :: pieces) (p.trim :: pieces.flatMap listItems) :=
        .item hl hr (ih h.2)
      rwa [← hp] at hspaced

/-- **The entries of a list.** The entries of two lists with a comma between are those of the one and
then those of the other. Entries are not empty, have no comma in them and nothing to trim. And a text
has some such entries exactly if it is one of the ways to write them, whatever white space stands
around them and however many blank pieces stand between. -/
theorem listItems_spaced (a b s : Bytes) (items : List Bytes) :
    listItems (a ++ 0x2C :: b) = listItems a ++ listItems b ∧
    (∀ x ∈ listItems s, IsItem x) ∧
    (listItems s = items ↔
      (∀ x ∈ items, IsItem x) ∧ ∃ pieces, Spaced pieces items ∧ s = join [0x2C] pieces) := by
  refine ⟨listItems_append a b, fun _ => listItems_isItem, ?_⟩
  constructor
  · rintro rfl
    refine ⟨fun _ => listItems_isItem, split 0x2C s, ?_, (join_split _ s).symm⟩
    have hspaced := spaced_listItems fun p (hp : p ∈ split 0x2C s) => (mem_split hp).1
    rwa [← listItems_join, join_split] at hspaced
  · rintro ⟨hitems, pieces, hspaced, rfl⟩
    exact hspaced.listItems_eq hitems

/-- An entry of bytes outside every valid sequence between a no-break space and a vertical tab, a wide
space alone, an empty piece, and an entry that goes on behind a blank. -/
theorem listItems_spaced_awkward :
    let pieces : List Bytes :=
      [[0xC2, 0xA0] ++ ([0xFF, 0x85] ++ [11]), [0xE3, 0x80, 0x80], [], [] ++ ([0x61, 32, 0x62] ++ [10])]
    let text := join [0x2C] pieces
    listItems text = [[0xFF, 0x85], [0x61, 32, 0x62]] ∧ IsItem [0xFF, 0x85] ∧
      listItems (text ++ 0x2C :: text) = listItems text ++ listItems text := by
  intro pieces text
  obtain ⟨hcomma, hitem, hread⟩ :=
    listItems_spaced text text text [[0xFF, 0x85], [0x61, 32, 0x62]]
  have hitems : ∀ x ∈ ([[0xFF, 0x85], [0x61, 32, 0x62]] : List Bytes), IsItem x := by
    simp only [List.forall_mem_cons]
    exact ⟨⟨by decide, by decide, by decide⟩, ⟨by decide, by decide, by decide⟩,
      List.forall_mem_nil _⟩
  have hspaced : Spaced pieces [[0xFF, 0x85], [0x61, 32, 0x62]] :=
    .item (by decide) (by decide) <| .blank (by decide) <| .blank (by decide) <|
      .item (by decide) (by decide) .nil
  have htext := hread.mpr ⟨hitems, pieces, hspaced, rfl⟩
  exact ⟨htext, hitem _ (htext ▸ List.mem_cons_self), hcomma⟩

end ClassOutline.Bytes
