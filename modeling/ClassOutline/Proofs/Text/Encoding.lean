import ClassOutline.Proofs.Text.Characters

/-!
# Characters and their UTF-8 form

A character is written as one to four bytes (`Bytes.ofCodePoint`) and read back by `Rune.read`. The
two are tied together by the forms that a character can have, `Rune.Encodes`: every scalar value is
written in one of them (`encodes_ofCodePoint`), each of them is read as it was meant
(`Encodes.read_eq`), nothing else is read as a character (`read_encodes`), and no character has two
(`Encodes.eq_ofCodePoint`).

For texts this gives the reading of anything written character by character
(`Bytes.runes_flatMap_ofCodePoint`), and that texts in UTF-8 are what their characters are written as
(`Bytes.toUtf8_eq_self`). Literals are such texts, and different ones are written differently
(`Bytes.ofString_inj`).
-/

namespace ClassOutline

namespace Rune

/-! ## Forms of a character -/

/-- The numbers that stand for characters: neither too great nor a surrogate. -/
def IsScalar (n : Nat) : Prop := n < 0x110000 ∧ ¬(0xD800 ≤ n ∧ n < 0xE000)

/-- The byte forms of a character, by their length. -/
inductive Encodes : Nat → Bytes → Prop where
  | one {b : UInt8} (hb : b < 0x80) : Encodes b.toNat [b]
  | two {b c : UInt8} (hb : within 0xC2 0xDF b = true) (hc : within 0x80 0xBF c = true) :
      Encodes (b.toNat % 32 * 64 + payload c) [b, c]
  | three {b c d : UInt8} (hb : within 0xE0 0xEF b = true)
      (hc : within (secondBounds b).1 (secondBounds b).2 c = true)
      (hd : within 0x80 0xBF d = true) :
      Encodes ((b.toNat % 16 * 64 + payload c) * 64 + payload d) [b, c, d]
  | four {b c d e : UInt8} (hb : within 0xF0 0xF4 b = true)
      (hc : within (secondBounds b).1 (secondBounds b).2 c = true)
      (hd : within 0x80 0xBF d = true) (he : within 0x80 0xBF e = true) :
      Encodes (((b.toNat % 8 * 64 + payload c) * 64 + payload d) * 64 + payload e) [b, c, d, e]

theorem within_iff {low high : Nat} {b : UInt8} :
    within low high b = true ↔ low ≤ b.toNat ∧ b.toNat ≤ high := by
  simp [within]

/-- A second byte is one like the later ones, with a narrower range behind four leading bytes. -/
theorem within_secondBounds_iff {b c : UInt8} :
    within (secondBounds b).1 (secondBounds b).2 c = true ↔
      (0x80 ≤ c.toNat ∧ c.toNat ≤ 0xBF) ∧ (b.toNat = 0xE0 → 0xA0 ≤ c.toNat) ∧
        (b.toNat = 0xED → c.toNat ≤ 0x9F) ∧ (b.toNat = 0xF0 → 0x90 ≤ c.toNat) ∧
        (b.toNat = 0xF4 → c.toNat ≤ 0x8F) := by
  simp only [secondBounds, within_iff, beq_iff_eq, ← UInt8.toNat_inj]
  split_ifs <;> simp_all <;> omega

theorem within_eq_false {low high : Nat} {b : UInt8} (h : ¬(low ≤ b.toNat ∧ b.toNat ≤ high)) :
    within low high b = false := by
  rw [Bool.eq_false_iff, Ne, within_iff]
  exact h

variable {n : Nat} {b : UInt8} {u : Bytes}

/-- A form is read as the character it is meant for, whatever follows. -/
theorem Encodes.read_eq (h : Encodes n (b :: u)) (s : Bytes) : read b (u ++ s) = ⟨n, b :: u⟩ := by
  have hwide : ∀ {low high : Nat}, 0x80 ≤ low → within low high b = true → ¬ b < 0x80 :=
    fun hlow hb => UInt8.not_lt.mpr (le_of_within hlow hb)
  cases h with
  | one hb => exact read_ascii hb s
  | two hb hc =>
    have hone := hwide (by decide) hb
    simp [read, hone, hb, hc]
  | three hb hc hd =>
    have hone := hwide (by decide) hb
    have htwo : within 0xC2 0xDF b = false := within_eq_false (by rw [within_iff] at hb; omega)
    simp [read, hone, htwo, hb, hc, hd]
  | four hb hc hd he =>
    have hone := hwide (by decide) hb
    have htwo : within 0xC2 0xDF b = false := within_eq_false (by rw [within_iff] at hb; omega)
    have hthree : within 0xE0 0xEF b = false := within_eq_false (by rw [within_iff] at hb; omega)
    simp [read, hone, htwo, hthree, hb, hc, hd, he]

/-- What is read is a character in one of its forms, or a byte outside every valid sequence. -/
theorem read_encodes (b : UInt8) (s : Bytes) :
    Encodes (read b s).code (read b s).bytes ∨
      (read b s).isInvalid = true ∧ (read b s).code = replacement := by
  have hinvalid : ∀ h : ¬ b < 0x80, (Rune.mk replacement [b]).isInvalid = true := by
    intro h
    simpa [isInvalid] using UInt8.not_lt.mp h
  fun_cases read b s
  case case1 hb => exact .inl (.one hb)
  case case2 hb c t hc => exact .inl (.two hb hc)
  case case5 low high hbounds _ _ hb c d t h =>
    rw [Bool.and_eq_true] at h
    exact .inl (.three hb (by rw [hbounds]; exact h.1) h.2)
  case case8 low high hbounds _ _ _ hb c d e t h =>
    rw [Bool.and_eq_true, Bool.and_eq_true] at h
    exact .inl (.four hb (by rw [hbounds]; exact h.1.1) h.1.2 h.2)
  -- in every other case the byte stands alone
  all_goals exact .inr ⟨hinvalid ‹_›, rfl⟩

theorem toNat_toUInt8 {m : Nat} (hm : m < 256) : m.toUInt8.toNat = m := by
  simp [Nat.mod_eq_of_lt hm]

theorem encodes_ofCodePoint (h : IsScalar n) : Encodes n (Bytes.ofCodePoint n) := by
  unfold IsScalar at h
  unfold Bytes.ofCodePoint
  split_ifs with hone htwo hno hthree
  -- in each form the bytes are replaced by variables once their numbers are known
  · have hb : n.toUInt8.toNat = n := toNat_toUInt8 (by omega)
    generalize n.toUInt8 = b at *
    subst hb
    exact .one (UInt8.lt_iff_toNat_lt.mpr hone)
  · have hb : (0xC0 + n / 0x40).toUInt8.toNat = 0xC0 + n / 0x40 := toNat_toUInt8 (by omega)
    have hc : (0x80 + n % 0x40).toUInt8.toNat = 0x80 + n % 0x40 := toNat_toUInt8 (by omega)
    generalize (0xC0 + n / 0x40).toUInt8 = b at *
    generalize (0x80 + n % 0x40).toUInt8 = c at *
    have hcode : n = b.toNat % 32 * 64 + payload c := by
      rw [payload]
      omega
    rw [hcode]
    exact .two (by rw [within_iff]; omega) (by rw [within_iff]; omega)
  · -- what is no scalar value has no form
    omega
  · have hb : (0xE0 + n / 0x1000).toUInt8.toNat = 0xE0 + n / 0x1000 := toNat_toUInt8 (by omega)
    have hc : (0x80 + n / 0x40 % 0x40).toUInt8.toNat = 0x80 + n / 0x40 % 0x40 :=
      toNat_toUInt8 (by omega)
    have hd : (0x80 + n % 0x40).toUInt8.toNat = 0x80 + n % 0x40 := toNat_toUInt8 (by omega)
    generalize (0xE0 + n / 0x1000).toUInt8 = b at *
    generalize (0x80 + n / 0x40 % 0x40).toUInt8 = c at *
    generalize (0x80 + n % 0x40).toUInt8 = d at *
    have hcode : n = (b.toNat % 16 * 64 + payload c) * 64 + payload d := by
      rw [payload, payload]
      omega
    rw [hcode]
    exact .three (by rw [within_iff]; omega) (by rw [within_secondBounds_iff]; omega)
      (by rw [within_iff]; omega)
  · have hb : (0xF0 + n / 0x40000).toUInt8.toNat = 0xF0 + n / 0x40000 := toNat_toUInt8 (by omega)
    have hc : (0x80 + n / 0x1000 % 0x40).toUInt8.toNat = 0x80 + n / 0x1000 % 0x40 :=
      toNat_toUInt8 (by omega)
    have hd : (0x80 + n / 0x40 % 0x40).toUInt8.toNat = 0x80 + n / 0x40 % 0x40 :=
      toNat_toUInt8 (by omega)
    have he : (0x80 + n % 0x40).toUInt8.toNat = 0x80 + n % 0x40 := toNat_toUInt8 (by omega)
    generalize (0xF0 + n / 0x40000).toUInt8 = b at *
    generalize (0x80 + n / 0x1000 % 0x40).toUInt8 = c at *
    generalize (0x80 + n / 0x40 % 0x40).toUInt8 = d at *
    generalize (0x80 + n % 0x40).toUInt8 = e at *
    have hcode : n = ((b.toNat % 8 * 64 + payload c) * 64 + payload d) * 64 + payload e := by
      rw [payload, payload, payload]
      omega
    rw [hcode]
    exact .four (by rw [within_iff]; omega) (by rw [within_secondBounds_iff]; omega)
      (by rw [within_iff]; omega) (by rw [within_iff]; omega)

theorem Encodes.isScalar {s : Bytes} (h : Encodes n s) : IsScalar n := by
  cases h with
  | @one b hb =>
    rw [UInt8.lt_iff_toNat_lt] at hb
    have : b.toNat < 0x80 := hb
    exact ⟨by omega, by omega⟩
  | two hb hc =>
    rw [within_iff] at hb hc
    constructor <;> simp only [payload] <;> omega
  | three hb hc hd =>
    rw [within_secondBounds_iff] at hc
    rw [within_iff] at hb hd
    constructor <;> simp only [payload] <;> omega
  | four hb hc hd he =>
    rw [within_secondBounds_iff] at hc
    rw [within_iff] at hb hd he
    constructor <;> simp only [payload] <;> omega

theorem Encodes.not_isInvalid {r : Rune} (h : Encodes n r.bytes) : r.isInvalid = false := by
  unfold isInvalid
  generalize r.bytes = s at h
  cases h with
  | one hb => simpa using hb
  | two => rfl
  | three => rfl
  | four => rfl

/-- The first byte of a form is no later one. -/
theorem Encodes.isLater_head {s : Bytes} (h : Encodes n s) : s.head?.any isLater = false := by
  cases h with
  | one hb => exact isLater_of_ascii hb
  | two hb _ | three hb _ _ | four hb _ _ _ =>
    rw [within_iff] at hb
    exact within_eq_false (by omega)

theorem eq_toUInt8 {m : Nat} (h : b.toNat = m) : b = m.toUInt8 := by
  rw [← UInt8.toNat_inj, h, toNat_toUInt8 (h ▸ b.toNat_lt)]

/-- A character has one form. -/
theorem Encodes.eq_ofCodePoint {s : Bytes} (h : Encodes n s) : s = Bytes.ofCodePoint n := by
  cases h with
  | @one b hb =>
    have hb : b.toNat < 0x80 := UInt8.lt_iff_toNat_lt.mp hb
    rw [Bytes.ofCodePoint, if_pos hb, ← eq_toUInt8 rfl]
  | @two b c hb hc =>
    generalize hm : b.toNat % 32 * 64 + payload c = m
    rw [within_iff] at hb hc
    rw [payload] at hm
    rw [Bytes.ofCodePoint, if_neg (by omega), if_pos (by omega), ← eq_toUInt8 (b := b) (by omega),
      ← eq_toUInt8 (b := c) (by omega)]
  | @three b c d hb hc hd =>
    generalize hm : (b.toNat % 16 * 64 + payload c) * 64 + payload d = m
    rw [within_secondBounds_iff] at hc
    rw [within_iff] at hb hd
    rw [payload, payload] at hm
    rw [Bytes.ofCodePoint, if_neg (by omega), if_neg (by omega), if_neg (by omega),
      if_pos (by omega), ← eq_toUInt8 (b := b) (by omega), ← eq_toUInt8 (b := c) (by omega),
      ← eq_toUInt8 (b := d) (by omega)]
  | @four b c d e hb hc hd he =>
    generalize hm : ((b.toNat % 8 * 64 + payload c) * 64 + payload d) * 64 + payload e = m
    rw [within_secondBounds_iff] at hc
    rw [within_iff] at hb hd he
    rw [payload, payload, payload] at hm
    rw [Bytes.ofCodePoint, if_neg (by omega), if_neg (by omega), if_neg (by omega),
      if_neg (by omega), ← eq_toUInt8 (b := b) (by omega), ← eq_toUInt8 (b := c) (by omega),
      ← eq_toUInt8 (b := d) (by omega), ← eq_toUInt8 (b := e) (by omega)]

end Rune

namespace Bytes

variable {s : Bytes} {r : Rune}

/-! ## Texts -/

/-- Every character of a text has a form, or stands for a byte outside every valid sequence. -/
theorem encodes_of_mem_runes (hr : r ∈ runes s) :
    Rune.Encodes r.code r.bytes ∨ r.isInvalid = true ∧ r.code = Rune.replacement := by
  induction s using rune_induction with
  | nil => cases hr
  | cons b u v hbytes ih =>
    rw [runes_cons rfl hbytes] at hr
    rcases List.mem_cons.mp hr with rfl | hr
    · exact Rune.read_encodes b (u ++ v)
    · exact ih hr

theorem isScalar_of_mem_runes (hr : r ∈ runes s) : Rune.IsScalar r.code := by
  rcases encodes_of_mem_runes hr with h | ⟨-, h⟩
  · exact h.isScalar
  · rw [h]
    exact ⟨by decide, by decide⟩

theorem encodes_of_isUtf8 (hs : s.isUtf8 = true) (hr : r ∈ runes s) :
    Rune.Encodes r.code r.bytes := by
  rcases encodes_of_mem_runes hr with h | ⟨h, -⟩
  · exact h
  · have hvalid := List.all_eq_true.mp hs r hr
    simp [h] at hvalid

/-- A text in UTF-8 is what its characters are written as. -/
theorem toUtf8_eq_self (hs : s.isUtf8 = true) : s.toUtf8 = s := by
  have hchars : s.runes.map (fun r => ofCodePoint r.code) = s.runes.map Rune.bytes := by
    apply List.map_congr_left
    intro r hr
    exact (encodes_of_isUtf8 hs hr).eq_ofCodePoint.symm
  rw [toUtf8, List.flatMap_def, hchars, ← List.flatMap_def]
  exact ofRunes_runes s

theorem runes_ofCodePoint_append {n : Nat} (hn : Rune.IsScalar n) (s : Bytes) :
    runes (ofCodePoint n ++ s) = ⟨n, ofCodePoint n⟩ :: runes s := by
  have hform := Rune.encodes_ofCodePoint hn
  cases hbytes : ofCodePoint n with
  | nil =>
    rw [hbytes] at hform
    cases hform
  | cons b u =>
    rw [hbytes] at hform
    have hread := hform.read_eq s
    rw [List.cons_append, runes_cons rfl (congrArg Rune.bytes hread), hread]

/-- What is written character by character is read character by character. -/
theorem runes_flatMap_ofCodePoint {codes : List Nat} (h : ∀ n ∈ codes, Rune.IsScalar n) :
    runes (codes.flatMap ofCodePoint) = codes.map fun n => ⟨n, ofCodePoint n⟩ := by
  induction codes with
  | nil => rfl
  | cons n codes ih =>
    rw [List.flatMap_cons, runes_ofCodePoint_append (h n List.mem_cons_self),
      ih fun m hm => h m (List.mem_cons_of_mem _ hm), List.map_cons]

/-! ## Texts that are UTF-8 -/

variable {codes : List Nat}

theorem isUtf8_flatMap_ofCodePoint (h : ∀ n ∈ codes, Rune.IsScalar n) :
    isUtf8 (codes.flatMap ofCodePoint) = true := by
  rw [isUtf8, runes_flatMap_ofCodePoint h, List.all_map, List.all_eq_true]
  intro n hn
  have hform : Rune.Encodes n (Rune.mk n (ofCodePoint n)).bytes := Rune.encodes_ofCodePoint (h n hn)
  simp [hform.not_isInvalid]

theorem isUtf8_ofCodePoint {n : Nat} (hn : Rune.IsScalar n) : isUtf8 (ofCodePoint n) = true := by
  simpa using isUtf8_flatMap_ofCodePoint (List.forall_mem_singleton.mpr hn)

/-- A text may be cut in front of a part in UTF-8. -/
theorem runes_append_of_isUtf8 (hs : s.isUtf8 = true) (u : Bytes) :
    runes (u ++ s) = runes u ++ runes s := by
  apply runes_append_lead
  cases s with
  | nil => rfl
  | cons b s =>
    have hfirst := encodes_of_isUtf8 (r := Rune.read b s) hs List.mem_cons_self
    obtain ⟨u, v, -, hbytes, -⟩ := Rune.read_bytes b s
    rw [hbytes] at hfirst
    exact hfirst.isLater_head

/-- A text may be cut behind a part in UTF-8. -/
theorem runes_isUtf8_append {u : Bytes} (hu : u.isUtf8 = true) (s : Bytes) :
    runes (u ++ s) = runes u ++ runes s := by
  induction u using rune_induction with
  | nil => rfl
  | cons b u v hbytes ih =>
    have hform := encodes_of_isUtf8 (r := Rune.read b (u ++ v)) hu List.mem_cons_self
    rw [hbytes] at hform
    -- a character in its form is the same whatever follows
    have hread : Rune.read b (u ++ (v ++ s)) = Rune.read b (u ++ v) := by
      rw [hform.read_eq (v ++ s), hform.read_eq v]
    rw [isUtf8, runes_cons rfl hbytes, List.all_cons, Bool.and_eq_true] at hu
    rw [List.cons_append, List.append_assoc, runes_cons rfl (hread ▸ hbytes), hread, ih hu.2,
      runes_cons rfl hbytes, List.cons_append]

/-- The codes of a text are those of characters, also where a byte is outside every sequence. -/
theorem isScalar_of_mem_codes (s : Bytes) : ∀ n ∈ s.runes.map Rune.code, Rune.IsScalar n := by
  intro n hn
  obtain ⟨r, hr, rfl⟩ := List.mem_map.mp hn
  exact isScalar_of_mem_runes hr

theorem isUtf8_toUtf8 (s : Bytes) : s.toUtf8.isUtf8 = true := by
  have hutf8 := isUtf8_flatMap_ofCodePoint s.isScalar_of_mem_codes
  rwa [List.flatMap_map] at hutf8

theorem isScalar_of_mem_chars (s : String) : ∀ n ∈ s.toList.map Char.toNat, Rune.IsScalar n := by
  intro n hn
  obtain ⟨c, -, rfl⟩ := List.mem_map.mp hn
  rcases c.valid with h | ⟨hlow, hhigh⟩
  · have hcode : c.toNat < 0xD800 := h
    exact ⟨by omega, by omega⟩
  · have hcode : 0xDFFF < c.toNat := hlow
    exact ⟨hhigh, by omega⟩

theorem isUtf8_ofString (s : String) : (ofString s).isUtf8 = true := by
  have hutf8 := isUtf8_flatMap_ofCodePoint (isScalar_of_mem_chars s)
  rwa [List.flatMap_map] at hutf8

theorem runes_ofString (s : String) :
    runes (ofString s) = s.toList.map fun c => ⟨c.toNat, ofCodePoint c.toNat⟩ := by
  have hcodes := runes_flatMap_ofCodePoint (isScalar_of_mem_chars s)
  rwa [List.flatMap_map, List.map_map] at hcodes

theorem ofString_append (s t : String) : ofString (s ++ t) = ofString s ++ ofString t := by
  simp [ofString]

theorem ofString_inj {s t : String} : ofString s = ofString t ↔ s = t := by
  refine ⟨fun h => ?_, congrArg ofString⟩
  have hrunes := congrArg (fun b => (runes b).map Rune.code) h
  simp only [runes_ofString, List.map_map] at hrunes
  have hchars : s.toList = t.toList :=
    List.map_injective_iff.mpr (fun c d hcd => Char.toNat_inj.mp hcd) hrunes
  exact String.toList_inj.mp hchars

end Bytes

end ClassOutline
