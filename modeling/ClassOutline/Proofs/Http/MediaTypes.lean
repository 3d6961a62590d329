import ClassOutline.Http.MediaType
import ClassOutline.Proofs.Text.Trimming

/-!
# Media types as they are written

A media type is written as its name and parameters with semicolons in front of them. A value of word
bytes may stand bare, any other in quotes. Whichever way it was written, the type is read as what was
meant (`MediaType.parse?_text`), and where no name holds a star a parameter has the value that was given
(`MediaType.param_eq_given`).
-/

namespace ClassOutline

/-! ## Leading white space -/

namespace Bytes

theorem trimLeft_of_ascii {b : UInt8} (hb : b < 0x80) (hblank : Rune.isBlankCode b.toNat = false)
    (s : Bytes) : trimLeft (b :: s) = b :: s := by
  rw [trimLeft, runes_ascii hb, List.dropWhile_cons_of_neg (by simp [Rune.isBlank, hblank]),
    ← runes_ascii hb, ofRunes_runes]

theorem trimLeft_space (s : Bytes) : trimLeft (0x20 :: s) = trimLeft s := by
  rw [trimLeft, runes_ascii (by decide), List.dropWhile_cons_of_pos (by decide)]
  rfl

theorem trimLeft_spaces (n : Nat) (s : Bytes) :
    trimLeft (List.replicate n 0x20 ++ s) = trimLeft s := by
  induction n with
  | zero => rfl
  | succ n ih => rw [List.replicate_succ, List.cons_append, trimLeft_space, ih]

end Bytes

/-- Where no name stands twice, an entry is found by its name. -/
theorem Http.find?_of_nodup {entries : List (Bytes × Bytes)} {name v : Bytes}
    (hnodup : (entries.map Prod.fst).Nodup) (h : (name, v) ∈ entries) :
    entries.find? (fun e => e.1 == name) = some (name, v) := by
  induction entries with
  | nil => cases h
  | cons e entries ih =>
    obtain ⟨he, hrest⟩ := List.nodup_cons.mp hnodup
    rcases List.mem_cons.mp h with rfl | h
    · simp
    · have hne : e.1 ≠ name := fun heq => he (heq ▸ List.mem_map_of_mem h)
      rw [List.find?_cons_of_neg (by simpa using hne), ih hrest h]

namespace Http.MediaType

open Bytes

/-! ## Values -/

/-- The ways to write the value of a parameter. -/
inductive ValueText : Bytes → Bytes → Prop where
  | bare {v : Bytes} (hne : v ≠ []) (h : ∀ b ∈ v, isWordByte b = true) : ValueText v v
  | quoted {v : Bytes} (h : ∀ b ∈ v, b ∉ ([0x22, 0x5C, 0x0D, 0x0A] : Bytes)) :
      ValueText v (0x22 :: (v ++ [0x22]))

variable {v t rest : Bytes}

/-- A byte of a word is printed ASCII, and none of the delimiters. -/
theorem isWordByte_iff {b : UInt8} : isWordByte b = true ↔
    0x20 < b ∧ b < 0x7F ∧ b ∉ Bytes.ofString "()<>@,;:\\\"/[]?=" := by
  simp [isWordByte, isSpecial, and_assoc]

theorem ne_of_isWordByte {b c : UInt8} (hb : isWordByte b = true) (hc : isWordByte c = false) :
    b ≠ c := by
  rintro rfl
  rw [hb] at hc
  cases hc

theorem quotedTail_plain (h : ∀ b ∈ v, b ∉ ([0x22, 0x5C, 0x0D, 0x0A] : Bytes)) (rest : Bytes) :
    quotedTail (v ++ 0x22 :: rest) = some (v, rest) := by
  induction v with
  | nil => rfl
  | cons b v ih =>
    obtain ⟨hb, hv⟩ := List.forall_mem_cons.mp h
    simp only [List.mem_cons, List.not_mem_nil, or_false, not_or] at hb
    obtain ⟨hquote, hslash, hreturn, hnewline⟩ := hb
    rw [List.cons_append, quotedTail]
    · simp [hreturn, hnewline, ih hv]
    · exact hquote
    · exact fun _ _ h => absurd h hslash

theorem ValueText.value?_eq (h : ValueText v t) (hrest : rest.head?.any isWordByte = false) :
    value? (t ++ rest) = some (v, rest) := by
  cases h with
  | bare hne h =>
    have hword := Read.takeWhile_append_stop h hrest
    cases v with
    | nil => exact absurd rfl hne
    | cons b v =>
      have hquote : b ≠ 0x22 :=
        ne_of_isWordByte (h b List.mem_cons_self) (by decide +kernel)
      rw [List.cons_append, value?]
      · simp only [← List.cons_append, hword]
        simp
      · exact fun _ heq => absurd (List.cons.inj heq).1 hquote
  | quoted h =>
    rw [List.cons_append, List.append_assoc]
    exact quotedTail_plain h rest

/-- A value begins with printed ASCII. -/
theorem ValueText.trimLeft_eq (h : ValueText v t) (rest : Bytes) :
    trimLeft (t ++ rest) = t ++ rest := by
  cases h with
  | bare hne h =>
    cases v with
    | nil => exact absurd rfl hne
    | cons b v =>
      obtain ⟨hlow, hhigh, -⟩ := isWordByte_iff.mp (h b List.mem_cons_self)
      rw [UInt8.lt_iff_toNat_lt] at hlow hhigh
      have hb : b < 0x80 := by
        rw [UInt8.lt_iff_toNat_lt]
        exact Nat.lt_trans hhigh (by decide)
      have hblank : Rune.isBlankCode b.toNat = false := by
        have h20 : 0x20 < b.toNat := hlow
        have h7F : b.toNat < 0x7F := hhigh
        simp [Rune.isBlankCode]
        omega
      exact trimLeft_of_ascii hb hblank _
  | quoted => exact trimLeft_of_ascii (by decide) (by decide) _

/-! ## Parameters -/

/-- A name that a parameter can have: a word in lower case, without the star that marks pieces. -/
structure IsKey (key : Bytes) : Prop where
  ne_nil : key ≠ []
  bytes : ∀ b ∈ key, isWordByte b = true
  no_star : (0x2A : UInt8) ∉ key
  lower : key.lower = key

instance (key : Bytes) : Decidable (IsKey key) :=
  decidable_of_iff (key ≠ [] ∧ key.all isWordByte = true ∧ (0x2A : UInt8) ∉ key ∧ key.lower = key)
    ⟨fun h => ⟨h.1, List.all_eq_true.mp h.2.1, h.2.2.1, h.2.2.2⟩,
      fun h => ⟨h.1, List.all_eq_true.mpr h.2, h.3, h.4⟩⟩

/-- Parameters, each behind a semicolon and any number of spaces. -/
inductive ParamsText : List (Bytes × Bytes) → Bytes → Prop where
  | nil : ParamsText [] []
  | cons {key v t rest : Bytes} {params : List (Bytes × Bytes)} (n : Nat) (hkey : IsKey key)
      (hv : ValueText v t) (h : ParamsText params rest) :
      ParamsText ((key, v) :: params)
        (0x3B :: (List.replicate n 0x20 ++ (key ++ 0x3D :: (t ++ rest))))

variable {params : List (Bytes × Bytes)} {key : Bytes}

theorem ParamsText.isKey (h : ParamsText params t) : ∀ p ∈ params, IsKey p.1 := by
  induction h with
  | nil => exact fun _ h => absurd h List.not_mem_nil
  | cons _ hkey _ _ ih => exact List.forall_mem_cons.mpr ⟨hkey, ih⟩

theorem ParamsText.head? (h : ParamsText params t) : t.head?.all (· == 0x3B) = true := by
  cases h <;> rfl

theorem isWordByte_delimiters : isWordByte 0x3B = false ∧ isWordByte 0x3D = false := by
  decide +kernel

theorem ParamsText.head?_isWordByte (h : ParamsText params t) :
    t.head?.any isWordByte = false := by
  cases h with
  | nil => rfl
  | cons => exact isWordByte_delimiters.1

theorem param?_text (n : Nat) (hkey : IsKey key) (hv : ValueText v t)
    (hrest : rest.head?.any isWordByte = false) :
    param? (0x3B :: (List.replicate n 0x20 ++ (key ++ 0x3D :: (t ++ rest)))) =
      some ((key, v), rest) := by
  -- behind the blanks stands the name, which is a value too
  have hbare : ValueText key key := .bare hkey.ne_nil hkey.bytes
  have hname : (key ++ 0x3D :: (t ++ rest)).takeWhile isWordByte = key :=
    Read.takeWhile_append_stop hkey.bytes isWordByte_delimiters.2
  have hempty : key.isEmpty = false := by simpa using hkey.ne_nil
  rw [param?]
  simp only [trimLeft_spaces, hbare.trimLeft_eq, hname, hempty, Bool.false_eq_true, if_false,
    List.drop_left]
  rw [trimLeft_of_ascii (by decide) (by decide)]
  simp only [hv.trimLeft_eq, hv.value?_eq hrest, Option.map_some, hkey.lower]

theorem ParamsText.paramsFrom_eq (h : ParamsText params t) {fuel : Nat}
    (hfuel : params.length < fuel) : paramsFrom fuel t = some params := by
  induction h generalizing fuel with
  | nil =>
    obtain ⟨fuel, rfl⟩ : ∃ n, fuel = n + 1 := ⟨fuel - 1, by simp at hfuel; omega⟩
    rfl
  | @cons key v t rest params n hkey hv hrest ih =>
    rw [List.length_cons] at hfuel
    obtain ⟨fuel, rfl⟩ : ∃ n, fuel = n + 1 := ⟨fuel - 1, by omega⟩
    have hmore : paramsFrom fuel rest = some params := ih (by omega)
    rw [paramsFrom, trimLeft_of_ascii (by decide) (by decide)]
    simp only [List.isEmpty_cons, Bool.false_eq_true, if_false,
      param?_text n hkey hv hrest.head?_isWordByte, hmore, Option.map_some]

theorem ParamsText.length_le (h : ParamsText params t) : params.length ≤ t.length := by
  induction h with
  | nil => exact Nat.le_refl _
  | cons n hkey hv hrest ih =>
    simp only [List.length_cons, List.length_append]
    omega

theorem consistent_of_nodup (h : (params.map Prod.fst).Nodup) : consistent params = true := by
  induction params with
  | nil => rfl
  | cons p params ih =>
    obtain ⟨hp, hrest⟩ := List.nodup_cons.mp h
    rw [consistent, ih hrest, Bool.and_true, List.all_eq_true]
    intro q hq
    have hne : q.1 ≠ p.1 := fun heq => hp (heq ▸ List.mem_map_of_mem hq)
    simp [hne]

/-! ## Types -/

/-- A name as a type has it: in lower case and without white space around it. -/
structure IsTypeName (name : Bytes) : Prop where
  isName : isName name = true
  no_semicolon : (0x3B : UInt8) ∉ name
  lower : name.lower.trim = name

instance (name : Bytes) : Decidable (IsTypeName name) :=
  decidable_of_iff (isName name = true ∧ (0x3B : UInt8) ∉ name ∧ name.lower.trim = name)
    ⟨fun h => ⟨h.1, h.2.1, h.2.2⟩, fun h => ⟨h.1, h.2, h.3⟩⟩

/-- **A media type is read as it was meant.** -/
theorem parse?_text {name : Bytes} (hname : IsTypeName name) (h : ParamsText params t)
    (hnodup : (params.map Prod.fst).Nodup) : parse? (name ++ t) = some ⟨name, params⟩ := by
  have hstop : t.head?.any (· != 0x3B) = false := by
    have hhead := h.head?
    cases t with
    | nil => rfl
    | cons b t => simpa using hhead
  have hfront : (name ++ t).takeWhile (· != 0x3B) = name :=
    Read.takeWhile_append_stop (Read.bne_of_not_mem hname.no_semicolon) hstop
  have hparams : paramsFrom ((name ++ t).length + 1) t = some params := by
    have hlength := h.length_le
    apply h.paramsFrom_eq
    rw [List.length_append]
    omega
  simp only [parse?, hfront, hname.lower, hname.isName, Bool.not_true, Bool.false_eq_true, if_false,
    List.drop_left, hparams, consistent_of_nodup hnodup, if_true]

/-! ## Looking up a parameter -/

variable {m : MediaType}

theorem given?_eq_none (hparams : ∀ p ∈ m.params, (0x2A : UInt8) ∉ p.1) (name : Bytes)
    (hname : 0x2A ∈ name) : m.given? name = none := by
  rw [given?, Option.map_eq_none_iff, List.find?_eq_none]
  intro p hp heq
  exact hparams p hp (by rwa [beq_iff_eq.mp heq])

/-- Where no name holds a star, there are no pieces. -/
theorem param_eq_given (hparams : ∀ p ∈ m.params, (0x2A : UInt8) ∉ p.1) (name : Bytes) :
    m.param name = m.given? name := by
  have hstar := given?_eq_none hparams (name ++ [0x2A]) (by simp)
  have hpieces : ∀ fuel, m.pieces name fuel 0 = [] := by
    intro fuel
    cases fuel with
    | zero => rfl
    | succ fuel =>
      have hpiece := given?_eq_none hparams (name ++ 0x2A :: Bytes.ofInt (0 : Nat)) (by simp)
      have hescaped := given?_eq_none hparams
        (name ++ 0x2A :: Bytes.ofInt (0 : Nat) ++ [0x2A]) (by simp)
      simp only [pieces, hpiece, hescaped]
  rw [param, hstar]
  simp only [hpieces]

end Http.MediaType

end ClassOutline
