import ClassOutline.Json.Reader
import ClassOutline.Proofs.Text.Encoding
import ClassOutline.Proofs.Text.Reading

/-!
# What is written as JSON is read as it was

The writer escapes some characters of strings and lays values out over indented lines; the reader
knows nothing of layout and undoes every escape. A value whose strings are UTF-8 is read back from
its text, whatever follows (`Json.Readable.reads`), so a document is read as the value it was made of
and a newline is left (`Json.read_document`).

The layers are those of the text: one escape (`stringTail_escape`), a string (`stringTail_quote`), the
rest of an array or an object (`items_render`, `members_render`), and a value.
-/

namespace ClassOutline.Json

open Bytes

/-! ## Strings -/

theorem hexValue?_hexDigit {n : Nat} (hn : n < 16) : hexValue? (hexDigit n) = some n := by
  have hall : ∀ n < 16, hexValue? (hexDigit n) = some n := by decide
  exact hall n hn

variable {acc s rest : Bytes} {r : Rune}

theorem stringTail_short {e b : UInt8} (he : shortEscape? e = some b) (hu : e ≠ 0x75) :
    stringTail none acc (0x5C :: e :: s) = stringTail none (b :: acc) s := by
  rw [stringTail]
  · simp only [he, flush]
  · exact fun _ _ _ _ _ h => absurd h hu
  · exact hu

theorem stringTail_unicode {n : Nat} (hn : n < 0xD800) :
    stringTail none acc (unicodeEscape n ++ s) =
      stringTail none ((ofCodePoint n).reverse ++ acc) s := by
  have hdigits : ((n / 4096 % 16 * 16 + n / 256 % 16) * 16 + n / 16 % 16) * 16 + n % 16 = n := by
    omega
  -- below the surrogates a unit is no half of a pair
  have hpush : pushUnit none acc n = (none, (ofCodePoint n).reverse ++ acc) := by
    have hlow : (decide (0xDC00 ≤ n) && decide (n < 0xE000)) = false := by
      simp
      omega
    have hhigh : (decide (0xD800 ≤ n) && decide (n < 0xDC00)) = false := by
      simp
      omega
    simp [pushUnit, hlow, hhigh, flush]
  simp only [unicodeEscape, List.cons_append, List.nil_append]
  rw [stringTail]
  simp only [hexValue?_hexDigit (Nat.mod_lt _ (by decide : 0 < 16)), hdigits, hpush]

/-- A byte that stands for itself in a string. -/
def isPlain (b : UInt8) : Bool := b != 0x22 && b != 0x5C && 0x20 ≤ b

theorem stringTail_plain {b : UInt8} (hb : isPlain b = true) :
    stringTail none acc (b :: s) = stringTail none (b :: acc) s := by
  simp only [isPlain, Bool.and_eq_true, bne_iff_ne, ne_eq, decide_eq_true_eq] at hb
  obtain ⟨⟨hquote, hslash⟩, hlow⟩ := hb
  rw [stringTail]
  · rw [if_neg (UInt8.not_lt.mpr hlow), flush]
  · exact hquote
  -- the other forms all begin with a backslash
  · exact fun _ _ _ _ _ h => absurd h hslash
  · exact fun _ h => absurd h hslash
  · exact fun _ _ h => absurd h hslash
  · exact fun h => absurd h hslash

theorem stringTail_plains {u : Bytes} (hu : ∀ b ∈ u, isPlain b = true) :
    stringTail none acc (u ++ s) = stringTail none (u.reverse ++ acc) s := by
  induction u generalizing acc with
  | nil => rfl
  | cons b u ih =>
    rw [List.cons_append, stringTail_plain (hu b List.mem_cons_self),
      ih fun c hc => hu c (List.mem_cons_of_mem _ hc)]
    simp

/-- The bytes of a character stand for themselves unless the character is one of three kinds. -/
theorem isPlain_of_encodes {n : Nat} {u : Bytes} (hu : Rune.Encodes n u) (hquote : n ≠ 0x22)
    (hslash : n ≠ 0x5C) (hlow : 0x20 ≤ n) : ∀ b ∈ u, isPlain b = true := by
  -- all three kinds are below 0x80, and longer forms have no byte there
  have hwide : ∀ b : UInt8, 0x80 ≤ b → isPlain b = true := by
    intro b hb
    simp only [isPlain, Bool.and_eq_true, bne_iff_ne, decide_eq_true_eq]
    refine ⟨⟨?_, ?_⟩, UInt8.le_trans (by decide) hb⟩ <;>
    · rintro rfl
      exact absurd hb (by decide)
  have htail : ∀ b : UInt8, Rune.within 0x80 0xBF b = true → isPlain b = true :=
    fun b hb => hwide b (Rune.le_of_within (by decide) hb)
  cases hu with
  | @one b hb =>
    intro c hc
    rw [List.mem_singleton.mp hc]
    simp only [isPlain, Bool.and_eq_true, bne_iff_ne, decide_eq_true_eq]
    exact ⟨⟨fun h => hquote (congrArg UInt8.toNat h), fun h => hslash (congrArg UInt8.toNat h)⟩,
      UInt8.le_iff_toNat_le.mpr hlow⟩
  | @two b c hb hc =>
    have hlead := hwide b (Rune.le_of_within (by decide) hb)
    simp [hlead, htail c hc]
  | @three b c d hb hc hd =>
    have hlead := hwide b (Rune.le_of_within (by decide) hb)
    have hsecond := hwide c (Rune.le_of_within (Rune.le_secondBounds b) hc)
    simp [hlead, hsecond, htail d hd]
  | @four b c d e hb hc hd he =>
    have hlead := hwide b (Rune.le_of_within (by decide) hb)
    have hsecond := hwide c (Rune.le_of_within (Rune.le_secondBounds b) hc)
    simp [hlead, hsecond, htail d hd, htail e he]

/-- A character is read back from its escape, or from itself where it has none. -/
theorem stringTail_escape (hr : Rune.Encodes r.code r.bytes) :
    stringTail none acc (escape r ++ s) = stringTail none (r.bytes.reverse ++ acc) s := by
  have hbytes := hr.eq_ofCodePoint
  have hvalid : r.isInvalid = false := hr.not_isInvalid
  have hshort : ∀ e b : UInt8, shortEscape? e = some b → e ≠ 0x75 → ofCodePoint r.code = [b] →
      stringTail none acc ([0x5C, e] ++ s) = stringTail none (r.bytes.reverse ++ acc) s := by
    intro e b he hu hb
    rw [hbytes, hb]
    exact stringTail_short he hu
  simp only [escape, hvalid, Bool.false_eq_true, if_false, beq_iff_eq]
  -- in the order in which the writer looks for a short form
  split_ifs with hquote hslash h8 h12 h10 h13 h9 hescape
  · exact hshort 0x22 0x22 (by decide) (by decide) (by rw [hquote]; decide)
  · exact hshort 0x5C 0x5C (by decide) (by decide) (by rw [hslash]; decide)
  · exact hshort 0x62 8 (by decide) (by decide) (by rw [h8]; decide)
  · exact hshort 0x66 12 (by decide) (by decide) (by rw [h12]; decide)
  · exact hshort 0x6E 10 (by decide) (by decide) (by rw [h10]; decide)
  · exact hshort 0x72 13 (by decide) (by decide) (by rw [h13]; decide)
  · exact hshort 0x74 9 (by decide) (by decide) (by rw [h9]; decide)
  · simp only [Bool.or_eq_true, decide_eq_true_eq, beq_iff_eq] at hescape
    rw [hbytes, stringTail_unicode (by omega)]
  · simp only [Bool.or_eq_true, decide_eq_true_eq, beq_iff_eq] at hescape
    exact stringTail_plains (isPlain_of_encodes hr hquote hslash (by omega))

theorem stringTail_escapes {rs : List Rune} (hrs : ∀ r ∈ rs, Rune.Encodes r.code r.bytes) :
    stringTail none acc (rs.flatMap escape ++ 0x22 :: rest) =
      .ok (toUtf8 (acc.reverse ++ ofRunes rs), rest) := by
  induction rs generalizing acc with
  | nil => simp [stringTail, flush, ofRunes]
  | cons r rs ih =>
    rw [List.flatMap_cons, List.append_assoc, stringTail_escape (hrs r List.mem_cons_self),
      ih fun q hq => hrs q (List.mem_cons_of_mem _ hq), ofRunes_cons]
    simp

/-- A string is read back from its text. -/
theorem stringTail_quote (hs : s.isUtf8 = true) :
    stringTail none [] (s.runes.flatMap escape ++ 0x22 :: rest) = .ok (s, rest) := by
  rw [stringTail_escapes fun r hr => ?_]
  · rw [List.reverse_nil, List.nil_append, ofRunes_runes, toUtf8_eq_self hs]
  · exact encodes_of_isUtf8 hs hr

/-! ## Values -/

/-- What cannot go on a number. -/
def EndsNumber (s : Bytes) : Prop :=
  s.head?.all (fun b => !isDigit b && b != 0x2E && b != 0x65 && b != 0x45) = true

/-- The text of a number, all of which is read. -/
structure IsNumeral (text : Bytes) : Prop where
  first : text.head?.any (fun b => b == 0x2D || isDigit b) = true
  read : ∀ rest, EndsNumber rest → number (text ++ rest) = .ok (text, rest)

/-- A value that can be read back: its strings are UTF-8, its numbers are numbers, and it has no more
levels than allowed. -/
inductive Readable : Nat → Json → Prop where
  | null {depth : Nat} : Readable depth .null
  | bool {depth : Nat} (b : Bool) : Readable depth (.bool b)
  | num {depth : Nat} {text : Bytes} (h : IsNumeral text) : Readable depth (.num text)
  | str {depth : Nat} {text : Bytes} (h : text.isUtf8 = true) : Readable depth (.str text)
  | arr {depth : Nat} {items : List Json} (h : ∀ item ∈ items, Readable depth item) :
      Readable (depth + 1) (.arr items)
  | obj {depth : Nat} {members : List (Bytes × Json)} (names : ∀ m ∈ members, m.1.isUtf8 = true)
      (h : ∀ m ∈ members, Readable depth m.2) : Readable (depth + 1) (.obj members)

theorem skipSpace_of_not {b : UInt8} (hb : isSpace b = false) (s : Bytes) :
    skipSpace (b :: s) = b :: s :=
  List.dropWhile_cons_of_neg (by simp [hb])

theorem skipSpace_newline {b : UInt8} (hb : isSpace b = false) (level : Nat) (s : Bytes) :
    skipSpace (newline level ++ b :: s) = b :: s := by
  have hspaces : ∀ c ∈ newline level, isSpace c = true := by
    intro c hc
    rcases List.mem_cons.mp hc with rfl | hc
    · rfl
    · rw [List.eq_of_mem_replicate hc]
      rfl
  exact Read.dropWhile_append_stop hspaces (by simp [hb])

theorem value_congr {t : Bytes} (h : skipSpace s = skipSpace t) (fuel depth : Nat) :
    value fuel depth s = value fuel depth t := by
  cases fuel with
  | zero => rfl
  | succ fuel => rw [value, value, h]

/-- That the text of a value at a level is read back: it begins with neither white space nor a closing
bracket, and what follows it is left if it cannot go on a number. -/
structure Reads (depth level : Nat) (j : Json) : Prop where
  first : ∃ b t, render level j = b :: t ∧ isSpace b = false ∧ b ≠ 0x5D
  read : ∀ fuel rest, EndsNumber rest → 2 * (render level j).length ≤ fuel →
    value fuel depth (render level j ++ rest) = .ok (j, rest)

variable {depth level below fuel : Nat} {j : Json}

theorem Reads.skipSpace_render (h : Reads depth level j) (s : Bytes) :
    skipSpace (render level j ++ s) = render level j ++ s := by
  obtain ⟨b, t, hrender, hb, -⟩ := h.first
  rw [hrender, List.cons_append, skipSpace_of_not hb]

theorem Reads.skipSpace_line (h : Reads depth level j) (s : Bytes) :
    skipSpace (newline level ++ (render level j ++ s)) = render level j ++ s := by
  obtain ⟨b, t, hrender, hb, -⟩ := h.first
  rw [hrender, List.cons_append, skipSpace_newline hb]

/-- White space in front of a value is passed by. -/
theorem Reads.read_behind (h : Reads depth level j) (hrest : EndsNumber rest)
    (hfuel : 2 * (render level j).length ≤ fuel) (hs : skipSpace s = render level j ++ rest) :
    value fuel depth s = .ok (j, rest) := by
  rw [← h.skipSpace_render] at hs
  rw [value_congr hs]
  exact h.read fuel rest hrest hfuel

theorem endsNumber_newline (level : Nat) (s : Bytes) : EndsNumber (newline level ++ s) := rfl

theorem endsNumber_comma (s : Bytes) : EndsNumber (0x2C :: s) := rfl

/-- One element of an array, and the byte that says how it goes on. -/
theorem items_step {item : Json} {acc : List Json} {tail next : Bytes} {b : UInt8}
    (hitem : Reads depth level item) (hfuel : 2 * (render level item).length ≤ fuel)
    (hs : skipSpace s = render level item ++ tail) (hends : EndsNumber tail)
    (htail : skipSpace tail = b :: next) :
    items (fuel + 1) depth acc s =
      if b == 0x2C then items fuel depth (item :: acc) next
      else if b == 0x5D then .ok (.arr (item :: acc).reverse, next)
      else .error .invalid := by
  rw [items, hitem.read_behind hends hfuel hs]
  simp only [htail]

/-- The elements of an array from one on, up to the closing bracket. -/
theorem items_render {item : Json} {more acc : List Json} (hitem : Reads depth level item)
    (hmore : ∀ j ∈ more, Reads depth level j)
    (hfuel : 2 * ((render level item).length + (renderItems level more).length) + 1 ≤ fuel)
    (hs : skipSpace s = render level item ++
      (renderItems level more ++ (newline below ++ 0x5D :: rest))) :
    items fuel depth acc s = .ok (.arr ((item :: acc).reverse ++ more), rest) := by
  -- each element takes one from the fuel and has two for each of its bytes
  obtain ⟨fuel, rfl⟩ : ∃ n, fuel = n + 1 := ⟨fuel - 1, by omega⟩
  induction more generalizing item fuel acc s with
  | nil =>
    have hclose : skipSpace (newline below ++ 0x5D :: rest) = 0x5D :: rest :=
      skipSpace_newline rfl below rest
    rw [items_step hitem (by omega) hs (endsNumber_newline _ _) hclose]
    simp
  | cons next more ih =>
    rw [renderItems] at hs hfuel
    simp only [newline, List.length_cons, List.length_append] at hfuel
    obtain ⟨fuel, rfl⟩ : ∃ n, fuel = n + 1 := ⟨fuel - 1, by omega⟩
    have hnext := hmore next List.mem_cons_self
    have hcomma := skipSpace_of_not (b := 0x2C) rfl (newline level ++ (render level next ++
      (renderItems level more ++ (newline below ++ 0x5D :: rest))))
    have hrest := hnext.skipSpace_line (renderItems level more ++ (newline below ++ 0x5D :: rest))
    rw [items_step hitem (by omega) (by simpa using hs) (endsNumber_comma _) hcomma,
      if_pos (beq_self_eq_true _),
      ih hnext (fun j hj => hmore j (List.mem_cons_of_mem _ hj)) hrest fuel (by omega)]
    simp

/-- One member of an object, and the byte that says how it goes on. -/
theorem members_step {name : Bytes} {item : Json} {acc : List (Bytes × Json)} {tail next : Bytes}
    {b : UInt8} (hname : name.isUtf8 = true) (hitem : Reads depth level item)
    (hfuel : 2 * (render level item).length ≤ fuel)
    (hs : skipSpace s = quote name ++ ([0x3A, 0x20] ++ (render level item ++ tail)))
    (hends : EndsNumber tail) (htail : skipSpace tail = b :: next) :
    members (fuel + 1) depth acc s =
      if b == 0x2C then members fuel depth ((name, item) :: acc) next
      else if b == 0x7D then .ok (.obj ((name, item) :: acc).reverse, next)
      else .error .invalid := by
  have hquoted : skipSpace s = 0x22 :: (name.runes.flatMap escape ++
      0x22 :: 0x3A :: 0x20 :: (render level item ++ tail)) := by
    rw [hs]
    simp [quote]
  have hblank : skipSpace (0x20 :: (render level item ++ tail)) = render level item ++ tail :=
    hitem.skipSpace_render tail
  have hvalue : value fuel depth (0x20 :: (render level item ++ tail)) = .ok (item, tail) :=
    hitem.read_behind hends hfuel hblank
  rw [members, hquoted]
  simp only [bne_self_eq_false, Bool.false_eq_true, if_false, stringTail_quote hname,
    skipSpace_of_not (b := 0x3A) rfl, hvalue, htail]

/-- The members of an object from one on, up to the closing brace. -/
theorem members_render {name : Bytes} {item : Json} {more acc : List (Bytes × Json)}
    (hname : name.isUtf8 = true) (hitem : Reads depth level item)
    (hmore : ∀ m ∈ more, m.1.isUtf8 = true ∧ Reads depth level m.2)
    (hfuel : 2 * ((render level item).length + (renderMembers level more).length) + 1 ≤ fuel)
    (hs : skipSpace s = quote name ++ ([0x3A, 0x20] ++ (render level item ++
      (renderMembers level more ++ (newline below ++ 0x7D :: rest))))) :
    members fuel depth acc s = .ok (.obj (((name, item) :: acc).reverse ++ more), rest) := by
  obtain ⟨fuel, rfl⟩ : ∃ n, fuel = n + 1 := ⟨fuel - 1, by omega⟩
  induction more generalizing name item fuel acc s with
  | nil =>
    have hclose : skipSpace (newline below ++ 0x7D :: rest) = 0x7D :: rest :=
      skipSpace_newline rfl below rest
    rw [members_step hname hitem (by omega) hs (endsNumber_newline _ _) hclose]
    simp
  | cons next more ih =>
    obtain ⟨name', item'⟩ := next
    -- the reader stops at the comma and goes on behind the line break with one less
    rw [renderMembers] at hs hfuel
    simp only [newline, List.length_cons, List.length_append] at hfuel
    obtain ⟨fuel, rfl⟩ : ∃ n, fuel = n + 1 := ⟨fuel - 1, by omega⟩
    have hnext : name'.isUtf8 = true ∧ Reads depth level item' := hmore _ List.mem_cons_self
    have hcomma := skipSpace_of_not (b := 0x2C) rfl (newline level ++ (quote name' ++
      ([0x3A, 0x20] ++ (render level item' ++
        (renderMembers level more ++ (newline below ++ 0x7D :: rest))))))
    have hrest : skipSpace (newline level ++ (quote name' ++ ([0x3A, 0x20] ++ (render level item' ++
        (renderMembers level more ++ (newline below ++ 0x7D :: rest)))))) = quote name' ++
        ([0x3A, 0x20] ++ (render level item' ++
          (renderMembers level more ++ (newline below ++ 0x7D :: rest)))) :=
      skipSpace_newline rfl level _
    rw [members_step hname hitem (by omega) (by simpa using hs) (endsNumber_comma _) hcomma,
      if_pos (beq_self_eq_true _),
      ih hnext.1 hnext.2 (fun m hm => hmore m (List.mem_cons_of_mem _ hm)) hrest fuel (by omega)]
    simp

/-- A number begins with a byte of its own kind. -/
theorem first_of_isNumeral {b : UInt8} {t : Bytes} (h : IsNumeral (b :: t)) :
    isSpace b = false ∧ b ∉ ([0x22, 0x5B, 0x5D, 0x7B, 0x6E, 0x74, 0x66] : Bytes) := by
  have hfirst : (b == 0x2D || isDigit b) = true := by simpa using h.first
  constructor
  · by_contra hspace
    simp only [isSpace, Bool.not_eq_false, Bool.or_eq_true, beq_iff_eq] at hspace
    rcases hspace with ((rfl | rfl) | rfl) | rfl <;> exact absurd hfirst (by decide)
  · intro hmem
    simp only [List.mem_cons, List.not_mem_nil, or_false] at hmem
    rcases hmem with rfl | rfl | rfl | rfl | rfl | rfl | rfl <;> exact absurd hfirst (by decide)

theorem Reads.of_num {text : Bytes} (h : IsNumeral text) : Reads depth level (.num text) := by
  cases text with
  | nil => exact absurd h.first (by simp)
  | cons b t =>
    obtain ⟨hspace, hother⟩ := first_of_isNumeral h
    simp only [List.mem_cons, List.not_mem_nil, or_false, not_or] at hother
    obtain ⟨h22, h5b, h5d, h7b, h6e, h74, h66⟩ := hother
    refine ⟨⟨b, t, by rw [render], hspace, h5d⟩, fun fuel rest hrest hfuel => ?_⟩
    obtain ⟨fuel, rfl⟩ : ∃ n, fuel = n + 1 := ⟨fuel - 1, by simp [render] at hfuel; omega⟩
    have hfirst : b = 0x2D ∨ isDigit b = true := by simpa using h.first
    have hnumber := h.read rest hrest
    rw [List.cons_append] at hnumber
    rw [render, value, List.cons_append, skipSpace_of_not hspace]
    -- none of the other kinds of values begins with this byte
    simp [h6e, h74, h66, hfirst, hnumber, Except.map]

theorem Reads.of_str {text : Bytes} (h : text.isUtf8 = true) : Reads depth level (.str text) := by
  refine ⟨⟨_, _, by rw [render, quote], rfl, by decide⟩, fun fuel rest _ hfuel => ?_⟩
  obtain ⟨fuel, rfl⟩ : ∃ n, fuel = n + 1 := ⟨fuel - 1, by simp [render, quote] at hfuel; omega⟩
  have htail : stringTail none [] (text.runes.flatMap escape ++ 0x22 :: rest) = .ok (text, rest) :=
    stringTail_quote h
  rw [render, quote, List.cons_append, List.append_assoc, value, skipSpace_of_not rfl]
  simp only [List.cons_append, List.nil_append, htail]
  rfl

theorem expect_append (u s : Bytes) : expect u (u ++ s) = .ok s := by
  induction u with
  | nil => rfl
  | cons b u ih => simpa [expect] using ih

/-- A word that stands for a value. -/
theorem Reads.of_word {b : UInt8} {u : Bytes} (hrender : render level j = b :: u)
    (hb : isSpace b = false ∧ b ≠ 0x5D)
    (hvalue : ∀ fuel s, value (fuel + 1) depth (b :: s) = (expect u s).map fun s => (j, s)) :
    Reads depth level j := by
  refine ⟨⟨b, u, hrender, hb⟩, fun fuel rest _ hfuel => ?_⟩
  obtain ⟨fuel, rfl⟩ : ∃ n, fuel = n + 1 := ⟨fuel - 1, by simp [hrender] at hfuel; omega⟩
  rw [hrender, List.cons_append, hvalue, expect_append]
  rfl

theorem Reads.of_null : Reads depth level .null := by
  refine .of_word (b := 0x6E) (u := ofString "ull") (by rw [render]; decide) (by decide) ?_
  intro fuel s
  rw [value, skipSpace_of_not rfl]
  rfl

theorem Reads.of_bool (b : Bool) : Reads depth level (.bool b) := by
  cases b with
  | false =>
    refine .of_word (b := 0x66) (u := ofString "alse") (by rw [render]; decide) (by decide) ?_
    intro fuel s
    rw [value, skipSpace_of_not rfl]
    rfl
  | true =>
    refine .of_word (b := 0x74) (u := ofString "rue") (by rw [render]; decide) (by decide) ?_
    intro fuel s
    rw [value, skipSpace_of_not rfl]
    rfl

theorem Reads.of_arr {items : List Json} (h : ∀ j ∈ items, Reads depth (level + 1) j) :
    Reads (depth + 1) level (.arr items) := by
  cases items with
  | nil =>
    refine ⟨⟨0x5B, [0x5D], by rw [render], rfl, by decide⟩, fun fuel rest _ hfuel => ?_⟩
    obtain ⟨fuel, rfl⟩ : ∃ n, fuel = n + 1 := ⟨fuel - 1, by simp [render] at hfuel; omega⟩
    rw [render, value, List.cons_append, skipSpace_of_not rfl]
    simp only [List.cons_append, List.nil_append, skipSpace_of_not (b := 0x5D) rfl]
  | cons item more =>
    have hitem := h item List.mem_cons_self
    refine ⟨⟨0x5B, _, by rw [render], rfl, by decide⟩, fun fuel rest _ hfuel => ?_⟩
    rw [render] at hfuel ⊢
    simp only [newline, List.length_cons, List.length_append] at hfuel
    obtain ⟨fuel, rfl⟩ : ∃ n, fuel = n + 1 := ⟨fuel - 1, by omega⟩
    let tail := renderItems (level + 1) more ++ (newline level ++ 0x5D :: rest)
    -- behind the bracket the reader first looks for a closing one, which no value begins with
    have hopen := hitem.skipSpace_line tail
    have hitems : items fuel depth [] (render (level + 1) item ++ tail) =
        .ok (.arr ([item].reverse ++ more), rest) :=
      items_render hitem (fun j hj => h j (List.mem_cons_of_mem _ hj)) (by omega)
        (hitem.skipSpace_render tail)
    obtain ⟨b, t, hfirst, -, hclose⟩ := hitem.first
    rw [value, List.cons_append, skipSpace_of_not rfl]
    simp only [List.append_assoc, List.cons_append, List.nil_append]
    rw [hopen, hfirst, List.cons_append]
    rw [hfirst, List.cons_append] at hitems
    simp [hclose, hitems]

theorem Reads.of_obj {members : List (Bytes × Json)} (hnames : ∀ m ∈ members, m.1.isUtf8 = true)
    (h : ∀ m ∈ members, Reads depth (level + 1) m.2) : Reads (depth + 1) level (.obj members) := by
  cases members with
  | nil =>
    refine ⟨⟨0x7B, [0x7D], by rw [render], rfl, by decide⟩, fun fuel rest _ hfuel => ?_⟩
    obtain ⟨fuel, rfl⟩ : ∃ n, fuel = n + 1 := ⟨fuel - 1, by simp [render] at hfuel; omega⟩
    rw [render, value, List.cons_append, skipSpace_of_not rfl]
    simp only [List.cons_append, List.nil_append, skipSpace_of_not (b := 0x7D) rfl]
  | cons m more =>
    obtain ⟨name, item⟩ := m
    have hname : name.isUtf8 = true := hnames _ List.mem_cons_self
    have hitem : Reads depth (level + 1) item := h _ List.mem_cons_self
    refine ⟨⟨0x7B, _, by rw [render], rfl, by decide⟩, fun fuel rest _ hfuel => ?_⟩
    rw [render] at hfuel ⊢
    simp only [newline, List.length_cons, List.length_append] at hfuel
    obtain ⟨fuel, rfl⟩ : ∃ n, fuel = n + 1 := ⟨fuel - 1, by omega⟩
    let tail := quote name ++ ([0x3A, 0x20] ++ (render (level + 1) item ++
      (renderMembers (level + 1) more ++ (newline level ++ 0x7D :: rest))))
    have hopen : skipSpace (newline (level + 1) ++ tail) = tail := skipSpace_newline rfl _ _
    have hmembers : Json.members fuel depth [] tail =
        .ok (.obj ([(name, item)].reverse ++ more), rest) :=
      members_render hname hitem
        (fun m hm => ⟨hnames m (List.mem_cons_of_mem _ hm), h m (List.mem_cons_of_mem _ hm)⟩)
        (by omega) (skipSpace_of_not rfl _)
    rw [value, List.cons_append, skipSpace_of_not rfl]
    simp only [List.append_assoc, List.singleton_append]
    rw [hopen]
    exact hmembers

/-- A value is read back from its text, at any level of a document. -/
theorem Readable.reads (h : Readable depth j) (level : Nat) : Reads depth level j := by
  induction h generalizing level with
  | null => exact .of_null
  | bool b => exact .of_bool b
  | num h => exact .of_num h
  | str h => exact .of_str h
  | arr _ ih => exact .of_arr fun j hj => ih j hj (level + 1)
  | obj names _ ih => exact .of_obj names fun m hm => ih m hm (level + 1)

/-- **A document is read as the value it was made of**, and the newline at its end is left. -/
theorem read_document (h : Readable maxDepth j) : read j.document = .ok (j, [10]) := by
  refine (h.reads 0).read _ [10] rfl ?_
  simp only [document, List.length_append]
  omega

end ClassOutline.Json
