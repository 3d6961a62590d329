import ClassOutline.Proofs.Text.ListEntries
import ClassOutline.Proofs.Text.Words

/-!
# Texts on one line

Names, types and parameter lists as they are usually written: pieces of printable ASCII with one
blank between neighbours (`Bytes.OneLine`). Trimming and collapsing leave such a text alone
(`OneLine.collapse_eq`), and a comma-separated list of names is taken apart into the same names
(`listItems_commaList`).
-/

namespace ClassOutline

namespace Bytes

/-! ## Solid bytes -/

/-- An ASCII character that is neither a control character nor a blank. -/
def isSolid (b : UInt8) : Bool := 0x20 < b && b < 0x80

theorem isSolid_of_isWord {b : UInt8} (h : isWord b = true) : isSolid b = true := by
  simp [isWord, isLetter, isDigit, isSolid, UInt8.le_iff_toNat_le, UInt8.lt_iff_toNat_lt,
    ← UInt8.toNat_inj] at h ⊢
  omega

theorem lt_of_isSolid {b : UInt8} (h : isSolid b = true) : b < 0x80 := by
  simp only [isSolid, Bool.and_eq_true, decide_eq_true_eq] at h
  exact h.2

theorem isSpace_of_isSolid {b : UInt8} (h : isSolid b = true) : isSpace b = false := by
  simp [isSolid, isSpace, UInt8.lt_iff_toNat_lt, ← UInt8.toNat_inj] at h ⊢
  omega

theorem isBlankCode_of_isSolid {b : UInt8} (h : isSolid b = true) :
    Rune.isBlankCode b.toNat = false := by
  simp only [isSolid, Bool.and_eq_true, decide_eq_true_eq, UInt8.lt_iff_toNat_lt] at h
  have hlow : 0x20 < b.toNat := h.1
  have hhigh : b.toNat < 0x80 := h.2
  simp only [Rune.isBlankCode, Bool.or_eq_false_iff, Bool.and_eq_false_iff, beq_eq_false_iff_ne,
    decide_eq_false_iff_not]
  omega

/-- A text that begins and ends with a solid byte is trimmed. -/
theorem isTrimmed_of_isSolid {s : Bytes} (hfirst : s.head?.all isSolid = true)
    (hlast : s.getLast?.all isSolid = true) : s.IsTrimmed := by
  refine ⟨?first, ?last⟩
  case first =>
    cases s with
    | nil => rfl
    | cons b s =>
      rw [runes_ascii (lt_of_isSolid hfirst)]
      exact isBlankCode_of_isSolid hfirst
  case last =>
    rcases List.eq_nil_or_concat' s with rfl | ⟨u, b, rfl⟩
    · rfl
    · rw [List.getLast?_concat] at hlast
      have hascii := lt_of_isSolid hlast
      rw [runes_append (by simpa using hascii), runes_ascii hascii, runes_nil, List.getLast?_concat]
      exact isBlankCode_of_isSolid hlast

theorem isBlank_of_blanks {s : Bytes} (h : ∀ b ∈ s, b = 0x20) : s.isBlank = true := by
  induction s with
  | nil => rfl
  | cons b s ih =>
    rw [List.forall_mem_cons] at h
    rw [isBlank, h.1, runes_ascii (by decide), List.all_cons]
    exact Bool.and_eq_true_iff.mpr ⟨rfl, ih h.2⟩

/-! ## One blank between solid pieces -/

/-- Solid pieces with one blank between neighbours. -/
inductive OneLine : Bytes → Prop where
  | piece {w : Bytes} (hne : w ≠ []) (hw : ∀ b ∈ w, isSolid b = true) : OneLine w
  | cons {w s : Bytes} (hne : w ≠ []) (hw : ∀ b ∈ w, isSolid b = true) (hs : OneLine s) :
      OneLine (w ++ 0x20 :: s)

namespace OneLine

theorem ne_nil {s : Bytes} (h : OneLine s) : s ≠ [] := by
  cases h with
  | piece hne _ => exact hne
  | cons hne _ _ => exact List.append_ne_nil_of_left_ne_nil hne _

theorem head_solid {s : Bytes} (h : OneLine s) : s.head?.all isSolid = true := by
  have hpiece : ∀ w t : Bytes, w ≠ [] → (∀ b ∈ w, isSolid b = true) →
      (w ++ t).head?.all isSolid = true := by
    intro w t hne hw
    cases w with
    | nil => exact absurd rfl hne
    | cons b w => exact hw b List.mem_cons_self
  cases h with
  | piece hne hw => simpa using hpiece s [] hne hw
  | cons hne hw _ => exact hpiece _ _ hne hw

theorem last_solid {s : Bytes} (h : OneLine s) : s.getLast?.all isSolid = true := by
  induction h with
  | @piece w hne hw =>
    obtain ⟨u, b, rfl⟩ := List.eq_nil_or_concat' w |>.resolve_left hne
    simpa using hw b (by simp)
  | @cons w s _ _ hs ih =>
    rw [List.getLast?_append_of_ne_nil _ (List.cons_ne_nil _ _), List.getLast?_cons_of_ne_nil hs.ne_nil]
    exact ih

theorem trim_eq {s : Bytes} (h : OneLine s) : s.trim = s :=
  (isTrimmed_of_isSolid h.head_solid h.last_solid).trim_eq

theorem foldSpaces_eq {s : Bytes} (h : OneLine s) : foldSpaces s = s := by
  -- solid bytes are passed one by one, and a blank stands alone between two of them
  have hspace : ∀ w : Bytes, (∀ b ∈ w, isSolid b = true) → ∀ b ∈ w, isSpace b = false :=
    fun w hw b hb => isSpace_of_isSolid (hw b hb)
  induction h with
  | @piece w _ hw => simpa [foldSpaces] using foldSpaces_append_left (hspace w hw) []
  | @cons w s _ hw hs ih =>
    have hfirst : s.head?.any isSpace = false := by
      have hsolid := hs.head_solid
      cases s with
      | nil => rfl
      | cons c t => exact isSpace_of_isSolid hsolid
    rw [foldSpaces_append_left (hspace w hw), foldSpaces_cons_last rfl hfirst, ih]

/-- A text on one line is left as it is. -/
theorem collapse_eq {s : Bytes} (h : OneLine s) : s.collapse = s := by
  rw [collapse, h.trim_eq, h.foldSpaces_eq]

theorem comma {s t : Bytes} (hs : OneLine s) (ht : OneLine t) :
    OneLine (s ++ 0x2C :: 0x20 :: t) := by
  have hpiece : ∀ w : Bytes, (∀ b ∈ w, isSolid b = true) →
      ∀ b ∈ w ++ [0x2C], isSolid b = true := by
    intro w hw b hb
    simp only [List.mem_append, List.mem_singleton] at hb
    rcases hb with hb | rfl
    · exact hw b hb
    · rfl
  -- the comma belongs to the last piece of the first text
  induction hs with
  | piece hne hw => simpa using OneLine.cons (by simp) (hpiece _ hw) ht
  | cons hne hw _ ih => simpa using OneLine.cons hne hw ih

end OneLine

/-! ## Punctuation -/

@[simp] theorem ofString_blank : ofString " " = [0x20] := rfl

@[simp] theorem ofString_comma : ofString ", " = [0x2C, 0x20] := rfl

@[simp] theorem ofString_openParen : ofString "(" = [0x28] := rfl

@[simp] theorem ofString_closeParen : ofString ")" = [0x29] := rfl

@[simp] theorem ofString_semicolon : ofString ";\n" = [0x3B, 10] := rfl

/-! ## Lists with commas -/

/-- The entries of a list with a comma and a blank between neighbours. -/
def commaList (items : List Bytes) : Bytes := join (ofString ", ") items

@[simp] theorem commaList_singleton (x : Bytes) : commaList [x] = x := rfl

@[simp] theorem commaList_cons_cons (x y : Bytes) (ys : List Bytes) :
    commaList (x :: y :: ys) = x ++ 0x2C :: 0x20 :: commaList (y :: ys) := by
  simp [commaList, join]

/-- A byte that is neither in the separator nor in an entry is not in the list. -/
theorem not_mem_commaList {items : List Bytes} {b : UInt8} (hsep : b ∉ ofString ", ")
    (hitems : ∀ x ∈ items, b ∉ x) : b ∉ commaList items := by
  induction items with
  | nil => exact List.not_mem_nil
  | cons x xs ih =>
    have hx := hitems x List.mem_cons_self
    cases xs with
    | nil => exact hx
    | cons y ys =>
      have hrest := ih fun z hz => hitems z (List.mem_cons_of_mem _ hz)
      rw [ofString_comma, List.mem_cons, List.mem_singleton, not_or] at hsep
      simp only [commaList_cons_cons, List.mem_append, List.mem_cons (l := _ :: _),
        List.mem_cons (l := commaList _), not_or]
      exact ⟨hx, hsep.1, hsep.2, hrest⟩

theorem words_commaList (items : List Bytes) : words (commaList items) = items.flatMap words := by
  induction items with
  | nil => rfl
  | cons x xs ih =>
    cases xs with
    | nil => simp
    | cons y ys =>
      rw [List.flatMap_cons, commaList_cons_cons, words_append_sep rfl, words_sep rfl, ih]

theorem OneLine.commaList {items : List Bytes} (hne : items ≠ [])
    (h : ∀ x ∈ items, OneLine x) : OneLine (commaList items) := by
  induction items with
  | nil => exact absurd rfl hne
  | cons x xs ih =>
    cases xs with
    | nil => exact h x List.mem_cons_self
    | cons y ys =>
      rw [commaList_cons_cons]
      exact (h x List.mem_cons_self).comma
        (ih (List.cons_ne_nil _ _) fun z hz => h z (List.mem_cons_of_mem _ hz))

/-- A parameter list that is on one line already stays as it is. -/
theorem collapse_commaList {items : List Bytes} (h : ∀ x ∈ items, OneLine x) :
    (commaList items).collapse = commaList items := by
  cases items with
  | nil => rfl
  | cons x xs => exact (OneLine.commaList (List.cons_ne_nil x xs) h).collapse_eq

/-! ## Entries of a list -/

/-- The entries of a list are the names it was made of, whatever blanks stand around it. -/
theorem listItems_commaList {items : List Bytes} (hne : items ≠ [])
    (hline : ∀ x ∈ items, OneLine x) (hcomma : ∀ x ∈ items, (0x2C : UInt8) ∉ x) {l r : Bytes}
    (hl : ∀ b ∈ l, b = 0x20) (hr : ∀ b ∈ r, b = 0x20) :
    listItems (l ++ (commaList items ++ r)) = items := by
  have hitems : ∀ x ∈ items, IsItem x :=
    fun x hx => ⟨(hline x hx).ne_nil, hcomma x hx, (hline x hx).trim_eq⟩
  clear hline hcomma
  -- each round takes one entry with the blanks before it off the front
  induction items generalizing l with
  | nil => exact absurd rfl hne
  | cons x xs ih =>
    rw [List.forall_mem_cons] at hitems
    cases xs with
    | nil => exact listItems_padded (isBlank_of_blanks hl) (isBlank_of_blanks hr) hitems.1
    | cons y ys =>
      have hfirst : listItems (l ++ (x ++ [])) = [x] :=
        listItems_padded (isBlank_of_blanks hl) rfl hitems.1
      have hrest := ih (List.cons_ne_nil y ys) (l := [0x20]) (by simp) hitems.2
      have hshape : l ++ (commaList (x :: y :: ys) ++ r) =
          (l ++ (x ++ [])) ++ 0x2C :: ([0x20] ++ (commaList (y :: ys) ++ r)) := by
        simp
      rw [hshape, listItems_append, hfirst, hrest, List.singleton_append]

end Bytes

/-! ## Lists of names -/

namespace Name

variable {reserved : List Bytes}

theorem oneLine_text (n : Name reserved) : Bytes.OneLine n.text :=
  .piece n.ne_nil fun b hb => Bytes.isSolid_of_isWord (n.isWord b hb)

theorem not_mem_commaList (names : List (Name reserved)) {b : UInt8}
    (hword : Bytes.isWord b = false) (hsep : b ∉ Bytes.ofString ", ") :
    b ∉ Bytes.commaList (names.map text) := by
  apply Bytes.not_mem_commaList hsep
  intro x hx
  obtain ⟨n, -, rfl⟩ := List.mem_map.mp hx
  exact n.not_mem_text hword

/-- The entries of a list of names are the names. -/
theorem listItems_commaList {names : List (Name reserved)} (hne : names ≠ []) {r : Bytes}
    (hr : ∀ b ∈ r, b = 0x20) :
    (Bytes.commaList (names.map text) ++ r).listItems = names.map text := by
  refine Bytes.listItems_commaList (l := []) (by simpa using hne) ?_ ?_ (List.forall_mem_nil _) hr
  · intro x hx
    obtain ⟨n, -, rfl⟩ := List.mem_map.mp hx
    exact n.oneLine_text
  · intro x hx
    obtain ⟨n, -, rfl⟩ := List.mem_map.mp hx
    exact n.not_mem_text rfl

end Name

end ClassOutline
