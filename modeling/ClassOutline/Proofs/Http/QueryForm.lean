import ClassOutline.Http.QueryText
import ClassOutline.Proofs.Text.OneLine

/-!
# Spellings of a form on one line

In query text a byte can stand for itself, if it is none of the few that mean something else there, or
be written as a percent sign and two digits, and a space can be a plus sign. Fields spelled in any such
way, with every byte escaped if the writer likes, are read as what they spell
(`QueryText.FormText.fields?_eq`).
-/

namespace ClassOutline.Http.QueryText

open Bytes (hexValue?)

/-- The bytes that do not stand for themselves. -/
def reserved : Bytes := [0x25, 0x26, 0x2B, 0x3B, 0x3D]

/-- The ways to write a name or value. -/
inductive Spells : Bytes → Bytes → Prop where
  | nil : Spells [] []
  | escaped {a b : UInt8} {x y : Nat} {s t : Bytes} (ha : hexValue? a = some x)
      (hb : hexValue? b = some y) (h : Spells s t) :
      Spells ((16 * x + y).toUInt8 :: s) (0x25 :: a :: b :: t)
  | plain {b : UInt8} {s t : Bytes} (hb : b ∉ reserved) (h : Spells s t) : Spells (b :: s) (b :: t)
  | space {s t : Bytes} (h : Spells s t) : Spells (0x20 :: s) (0x2B :: t)

/-- A text without reserved bytes spells itself. -/
theorem Spells.of_plain {s : Bytes} (h : ∀ b ∈ s, b ∉ reserved) : Spells s s := by
  induction s with
  | nil => exact .nil
  | cons b s ih =>
    obtain ⟨hb, hs⟩ := List.forall_mem_cons.mp h
    exact .plain hb (ih hs)

variable {s t : Bytes}

theorem unescape_plain {b : UInt8} (hb : b ∉ reserved) (t : Bytes) :
    unescape (b :: t) = (unescape t).map (b :: ·) := by
  simp only [reserved, List.mem_cons, List.not_mem_nil, or_false, not_or] at hb
  obtain ⟨hpercent, -, hplus, -, -⟩ := hb
  rw [unescape]
  · simp [hpercent, hplus]
  · exact fun _ _ _ h => absurd h hpercent

theorem unescape_plus (t : Bytes) : unescape (0x2B :: t) = (unescape t).map (0x20 :: ·) := by
  rw [unescape]
  · simp
  · intro _ _ _ h
    cases h

/-- A name or value is read as what it spells. -/
theorem Spells.unescape (h : Spells s t) : QueryText.unescape t = some s := by
  induction h with
  | nil => rfl
  | escaped ha hb _ ih => simp only [QueryText.unescape, ha, hb, ih, Option.map_some]
  | plain hb _ ih => rw [unescape_plain hb, ih, Option.map_some]
  | space _ ih => rw [unescape_plus, ih, Option.map_some]

/-- The bytes that separate fields, and names from values, are in no spelling. -/
theorem Spells.separator_not_mem (h : Spells s t) :
    ∀ sep ∈ ([0x26, 0x3B, 0x3D] : Bytes), sep ∉ t := by
  intro sep hsep
  have hother : hexValue? sep = none ∧ sep ≠ 0x25 ∧ sep ≠ 0x2B ∧ sep ∈ reserved := by
    simp only [List.mem_cons, List.not_mem_nil, or_false] at hsep
    rcases hsep with rfl | rfl | rfl <;> decide
  have hdigit : ∀ {c : UInt8} {x : Nat}, hexValue? c = some x → sep ≠ c := by
    rintro c x hc rfl
    rw [hother.1] at hc
    cases hc
  induction h with
  | nil => exact List.not_mem_nil
  | escaped ha hb _ ih => simp [hother.2.1, hdigit ha, hdigit hb, ih]
  | plain hb _ ih =>
    rw [List.mem_cons, not_or]
    exact ⟨fun heq => hb (heq ▸ hother.2.2.2), ih⟩
  | space _ ih => simp [hother.2.2.1, ih]

/-! ## Fields -/

/-- A field: its name, an equals sign and its value. -/
structure FieldText (field : Bytes × Bytes) (piece : Bytes) : Prop where
  text : ∃ t u, Spells field.1 t ∧ Spells field.2 u ∧ piece = t ++ 0x3D :: u

/-- Fields with ampersands between them. -/
structure FormText (fields : List (Bytes × Bytes)) (text : Bytes) : Prop where
  text : ∃ pieces, List.Forall₂ FieldText fields pieces ∧ text = Bytes.join [0x26] pieces

variable {field : Bytes × Bytes} {piece : Bytes}

theorem FieldText.field?_eq (h : FieldText field piece) : field? piece = some field := by
  obtain ⟨t, u, ht, hu, rfl⟩ := h.text
  have hsemicolon : List.elem 0x3B (t ++ 0x3D :: u) = false := by
    simp [ht.separator_not_mem 0x3B (by decide), hu.separator_not_mem 0x3B (by decide)]
  have hname : (t ++ 0x3D :: u).takeWhile (· != 0x3D) = t :=
    Read.takeWhile_append_stop (Read.bne_of_not_mem (ht.separator_not_mem 0x3D (by decide))) rfl
  rw [field?, hsemicolon]
  simp only [Bool.false_eq_true, if_false, hname, ht.unescape]
  rw [List.drop_length_add_append, List.drop_one, List.tail_cons, hu.unescape]

theorem FieldText.ampersand_not_mem (h : FieldText field piece) : (0x26 : UInt8) ∉ piece := by
  obtain ⟨t, u, ht, hu, rfl⟩ := h.text
  simp [ht.separator_not_mem 0x26 (by decide), hu.separator_not_mem 0x26 (by decide)]

theorem FieldText.ne_nil (h : FieldText field piece) : piece ≠ [] := by
  obtain ⟨t, u, -, -, rfl⟩ := h.text
  simp

/-- The pieces between ampersands, empty ones apart, are those that were joined. -/
theorem filter_split_join {pieces : List Bytes}
    (h : ∀ piece ∈ pieces, (0x26 : UInt8) ∉ piece ∧ piece ≠ []) :
    (Bytes.split 0x26 (Bytes.join [0x26] pieces)).filter (fun piece => !piece.isEmpty) = pieces := by
  by_cases hne : pieces = []
  · subst hne
    rfl
  · rw [Bytes.split_join hne fun p hp => (h p hp).1, List.filter_eq_self]
    intro p hp
    simpa using (h p hp).2

theorem pieces_of_fields {fields : List (Bytes × Bytes)} {pieces : List Bytes}
    (h : List.Forall₂ FieldText fields pieces) :
    (∀ piece ∈ pieces, (0x26 : UInt8) ∉ piece ∧ piece ≠ []) ∧ pieces.mapM field? = some fields := by
  induction h with
  | nil => exact ⟨fun _ h => absurd h List.not_mem_nil, rfl⟩
  | cons hfield _ ih =>
    obtain ⟨hplain, hread⟩ := ih
    constructor
    · exact List.forall_mem_cons.mpr ⟨⟨hfield.ampersand_not_mem, hfield.ne_nil⟩, hplain⟩
    · rw [List.mapM_cons, hfield.field?_eq, hread]
      rfl

/-- **A form is read as what it spells.** -/
theorem FormText.fields?_eq {fields : List (Bytes × Bytes)} {text : Bytes}
    (h : FormText fields text) : fields? text = some fields := by
  obtain ⟨pieces, hpieces, rfl⟩ := h.text
  obtain ⟨hplain, hread⟩ := pieces_of_fields hpieces
  rw [fields?, filter_split_join hplain, hread]

end ClassOutline.Http.QueryText
