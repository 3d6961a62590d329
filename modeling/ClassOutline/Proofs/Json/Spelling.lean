import ClassOutline.Proofs.Json.RoundTrip

/-!
# Spellings of an object of strings

A client may write a string in many ways: a character can stand for itself, it can have a short escape
or one of four digits, and one beyond the basic plane can be a pair of such escapes. White space may
stand between any two tokens. All of these spellings (`Json.Spells`, `Json.ObjectText`) are read as
what they spell (`Json.read_object`), whichever of them the library itself would write.
-/

namespace ClassOutline.Json

open Bytes

/-! ## Strings -/

/-- Four hexadecimal digits, of either case, for a number. -/
structure IsUnit (n : Nat) (u : Bytes) : Prop where
  digits : ∃ a b c d x y z w, u = [a, b, c, d] ∧ hexValue? a = some x ∧ hexValue? b = some y ∧
    hexValue? c = some z ∧ hexValue? d = some w ∧ n = ((x * 16 + y) * 16 + z) * 16 + w

/-- The character that a pair of surrogates stands for. -/
def pairCode (high low : Nat) : Nat := 0x10000 + (high - 0xD800) * 0x400 + (low - 0xDC00)

/-- The ways to write a text between quotes. -/
inductive Spells : Bytes → Bytes → Prop where
  | nil : Spells [] []
  /-- A byte that stands for itself. -/
  | plain {b : UInt8} {s t : Bytes} (hb : isPlain b = true) (h : Spells s t) :
      Spells (b :: s) (b :: t)
  | short {e b : UInt8} {s t : Bytes} (he : shortEscape? e = some b) (h : Spells s t) :
      Spells (b :: s) (0x5C :: e :: t)
  | unit {n : Nat} {u s t : Bytes} (hu : IsUnit n u) (hn : n < 0xD800 ∨ 0xE000 ≤ n)
      (h : Spells s t) : Spells (ofCodePoint n ++ s) (0x5C :: 0x75 :: (u ++ t))
  | pair {high low : Nat} {u v s t : Bytes} (hu : IsUnit high u) (hv : IsUnit low v)
      (hhigh : 0xD800 ≤ high ∧ high < 0xDC00) (hlow : 0xDC00 ≤ low ∧ low < 0xE000)
      (h : Spells s t) : Spells (ofCodePoint (pairCode high low) ++ s)
        (0x5C :: 0x75 :: (u ++ 0x5C :: 0x75 :: (v ++ t)))

/-- A text of bytes that stand for themselves spells itself. -/
theorem Spells.of_plain {s : Bytes} (h : ∀ b ∈ s, isPlain b = true) : Spells s s := by
  induction s with
  | nil => exact .nil
  | cons b s ih =>
    obtain ⟨hb, hs⟩ := List.forall_mem_cons.mp h
    exact .plain hb (ih hs)

variable {n : Nat} {acc u s t rest : Bytes} {pending : Option Nat}

theorem stringTail_unit (hu : IsUnit n u) :
    stringTail pending acc (0x5C :: 0x75 :: (u ++ s)) =
      stringTail (pushUnit pending acc n).1 (pushUnit pending acc n).2 s := by
  obtain ⟨a, b, c, d, x, y, z, w, rfl, ha, hb, hc, hd, rfl⟩ := hu.digits
  simp only [List.cons_append, List.nil_append]
  rw [stringTail]
  simp only [ha, hb, hc, hd]

theorem pushUnit_scalar (hn : n < 0xD800 ∨ 0xE000 ≤ n) :
    pushUnit none acc n = (none, (ofCodePoint n).reverse ++ acc) := by
  have hlow : (decide (0xDC00 ≤ n) && decide (n < 0xE000)) = false := by
    simp
    omega
  have hhigh : (decide (0xD800 ≤ n) && decide (n < 0xDC00)) = false := by
    simp
    omega
  simp [pushUnit, hlow, hhigh, flush]

theorem pushUnit_high {high : Nat} (h : 0xD800 ≤ high ∧ high < 0xDC00) :
    pushUnit none acc high = (some high, acc) := by
  have hnot : ¬ 0xDC00 ≤ high := by omega
  simp [pushUnit, hnot, h, flush]

theorem pushUnit_low {high low : Nat} (h : 0xDC00 ≤ low ∧ low < 0xE000) :
    pushUnit (some high) acc low = (none, (ofCodePoint (pairCode high low)).reverse ++ acc) := by
  rw [pushUnit, if_pos (by simpa using h)]
  rfl

/-- A string is read as what it spells. -/
theorem Spells.stringTail (h : Spells s t) (acc rest : Bytes) :
    Json.stringTail none acc (t ++ 0x22 :: rest) = .ok (toUtf8 (acc.reverse ++ s), rest) := by
  induction h generalizing acc with
  | nil => simp [Json.stringTail, flush]
  | plain hb _ ih =>
    rw [List.cons_append, stringTail_plain hb, ih]
    simp
  | @short e b s t he _ ih =>
    -- the letter of the longer escape is no short one
    have hu : e ≠ 0x75 := by
      rintro rfl
      have hnone : shortEscape? 0x75 = none := by decide
      rw [hnone] at he
      cases he
    rw [List.cons_append, List.cons_append, stringTail_short he hu, ih]
    simp
  | unit hu hn _ ih =>
    simp only [List.cons_append, List.append_assoc]
    rw [stringTail_unit hu, pushUnit_scalar hn, ih]
    simp
  | pair hu hv hhigh hlow _ ih =>
    simp only [List.cons_append, List.append_assoc]
    rw [stringTail_unit hu, pushUnit_high hhigh, stringTail_unit hv, pushUnit_low hlow, ih]
    simp

/-- A string in UTF-8 is read as itself. -/
theorem Spells.read (h : Spells s t) (hs : s.isUtf8 = true) (rest : Bytes) :
    Json.stringTail none [] (t ++ 0x22 :: rest) = .ok (s, rest) := by
  rw [h.stringTail, List.reverse_nil, List.nil_append, toUtf8_eq_self hs]

/-! ## Objects -/

/-- White space between tokens. -/
def IsGap (w : Bytes) : Prop := ∀ b ∈ w, isSpace b = true

theorem IsGap.skipSpace {w : Bytes} (hw : IsGap w) {b : UInt8} (hb : isSpace b = false) (s : Bytes) :
    Json.skipSpace (w ++ b :: s) = b :: s :=
  Read.dropWhile_append_stop hw (by simp [hb])

/-- A string in quotes, with white space around it. -/
structure Quotes (s t : Bytes) : Prop where
  text : ∃ before u after, IsGap before ∧ IsGap after ∧ Spells s u ∧
    t = before ++ 0x22 :: (u ++ 0x22 :: after)

theorem Spells.quotes {s u : Bytes} (h : Spells s u) : Quotes s (0x22 :: (u ++ [0x22])) :=
  ⟨[], u, [], fun _ h => absurd h List.not_mem_nil, fun _ h => absurd h List.not_mem_nil, h, rfl⟩

/-- The members of an object, each a string, up to the closing brace. -/
inductive MembersText : List (Bytes × Bytes) → Bytes → Prop where
  | last {name value t u : Bytes} (hname : Quotes name t) (hvalue : Quotes value u) :
      MembersText [(name, value)] (t ++ 0x3A :: (u ++ [0x7D]))
  | more {name value t u w : Bytes} {fields : List (Bytes × Bytes)} (hname : Quotes name t)
      (hvalue : Quotes value u) (h : MembersText fields w) :
      MembersText ((name, value) :: fields) (t ++ 0x3A :: (u ++ 0x2C :: w))

/-- A text that holds an object of strings and nothing else. -/
structure ObjectText (fields : List (Bytes × Bytes)) (text : Bytes) : Prop where
  text : ∃ before w after, IsGap before ∧ IsGap after ∧ MembersText fields w ∧
    text = before ++ 0x7B :: (w ++ after)

/-- The object that has strings for its members. -/
def ofFields (fields : List (Bytes × Bytes)) : Json := .obj (fields.map fun f => (f.1, .str f.2))

variable {name item : Bytes} {fuel depth : Nat} {done : List (Bytes × Json)}

theorem members_congr {s t : Bytes} (h : skipSpace s = skipSpace t) (fuel depth : Nat) :
    Json.members fuel depth done s = Json.members fuel depth done t := by
  cases fuel with
  | zero => rfl
  | succ fuel => rw [Json.members, Json.members, h]

/-- A string behind white space, and the white space behind it. -/
theorem Quotes.value (h : Quotes item t) (hitem : item.isUtf8 = true) (fuel depth : Nat)
    (rest : Bytes) : ∃ after, IsGap after ∧
      Json.value (fuel + 1) depth (t ++ rest) = .ok (.str item, after ++ rest) := by
  obtain ⟨before, u, after, hbefore, hafter, hu, rfl⟩ := h.text
  refine ⟨after, hafter, ?_⟩
  simp only [List.append_assoc, List.cons_append]
  rw [Json.value, hbefore.skipSpace rfl]
  simp only [hu.read hitem]
  rfl

/-- One member, and the byte that says how the object goes on. -/
theorem members_field {b : UInt8} (hname : Quotes name t) (hnameUtf8 : name.isUtf8 = true)
    (hitem : Quotes item u) (hitemUtf8 : item.isUtf8 = true) (hb : isSpace b = false) :
    Json.members (fuel + 2) depth done (t ++ 0x3A :: (u ++ b :: rest)) =
      if b == 0x2C then Json.members (fuel + 1) depth ((name, .str item) :: done) rest
      else if b == 0x7D then .ok (.obj ((name, .str item) :: done).reverse, rest)
      else .error .invalid := by
  obtain ⟨before, v, after, hbefore, hafter, hv, rfl⟩ := hname.text
  obtain ⟨gap, hgap, hvalue⟩ := hitem.value hitemUtf8 fuel depth (b :: rest)
  simp only [List.append_assoc, List.cons_append]
  rw [Json.members, hbefore.skipSpace rfl]
  simp only [bne_self_eq_false, Bool.false_eq_true, if_false, hv.read hnameUtf8,
    hafter.skipSpace (b := 0x3A) rfl, hvalue, hgap.skipSpace hb]

theorem MembersText.members {fields : List (Bytes × Bytes)} (h : MembersText fields t)
    (hutf8 : ∀ f ∈ fields, f.1.isUtf8 = true ∧ f.2.isUtf8 = true) (hfuel : fields.length < fuel)
    (depth : Nat) (acc : List (Bytes × Json)) (rest : Bytes) :
    Json.members fuel depth acc (t ++ rest) =
      .ok (.obj (acc.reverse ++ fields.map fun f => (f.1, .str f.2)), rest) := by
  -- a member takes a step of its own and one for its value
  induction h generalizing fuel acc with
  | last hname hvalue =>
    obtain ⟨fuel, rfl⟩ : ∃ n, fuel = n + 2 := ⟨fuel - 2, by simp at hfuel; omega⟩
    obtain ⟨hn, hv⟩ := hutf8 _ List.mem_cons_self
    simp only [List.append_assoc, List.cons_append, List.nil_append]
    rw [members_field hname hn hvalue hv rfl]
    simp
  | more hname hvalue _ ih =>
    obtain ⟨fuel, rfl⟩ : ∃ n, fuel = n + 2 := ⟨fuel - 2, by simp at hfuel; omega⟩
    obtain ⟨hn, hv⟩ := hutf8 _ List.mem_cons_self
    simp only [List.append_assoc, List.cons_append]
    rw [members_field hname hn hvalue hv rfl, if_pos (beq_self_eq_true _),
      ih (fun f hf => hutf8 f (List.mem_cons_of_mem _ hf)) (by simp at hfuel; omega)]
    simp

theorem MembersText.length_le {fields : List (Bytes × Bytes)} (h : MembersText fields t) :
    fields.length ≤ t.length := by
  induction h with
  | last =>
    simp only [List.length_append, List.length_cons, List.length_nil]
    omega
  | more _ _ _ ih =>
    simp only [List.length_append, List.length_cons]
    omega

/-- The members begin with a quote. -/
theorem MembersText.skipSpace {fields : List (Bytes × Bytes)} (h : MembersText fields t)
    (rest : Bytes) : ∃ s, Json.skipSpace (t ++ rest) = 0x22 :: s := by
  have hquotes : ∀ {name u s : Bytes}, Quotes name u →
      ∃ s', Json.skipSpace (u ++ s) = 0x22 :: s' := by
    intro name u s hu
    obtain ⟨before, v, after, hbefore, -, -, rfl⟩ := hu.text
    rw [List.append_assoc, List.cons_append]
    exact ⟨_, hbefore.skipSpace rfl _⟩
  cases h with
  | last hname _ => rw [List.append_assoc]; exact hquotes hname
  | more hname _ _ => rw [List.append_assoc]; exact hquotes hname

/-- **An object of strings is read as what it spells.** -/
theorem ObjectText.read {fields : List (Bytes × Bytes)} (h : ObjectText fields t)
    (hutf8 : ∀ f ∈ fields, f.1.isUtf8 = true ∧ f.2.isUtf8 = true) :
    ∃ rest, Json.read t = .ok (ofFields fields, rest) := by
  obtain ⟨before, w, after, hbefore, -, hw, rfl⟩ := h.text
  have hlength := hw.length_le
  obtain ⟨s, hs⟩ := hw.skipSpace after
  have hmembers : ∀ {fuel depth : Nat}, fields.length < fuel →
      Json.members fuel depth [] (0x22 :: s) = .ok (ofFields fields, after) := by
    intro fuel depth hfuel
    have hskip : Json.skipSpace (0x22 :: s) = Json.skipSpace (w ++ after) := by
      rw [hs, skipSpace_of_not rfl]
    rw [members_congr hskip, hw.members hutf8 hfuel]
    rfl
  refine ⟨after, ?_⟩
  rw [Json.read, Json.value, hbefore.skipSpace rfl]
  simp only [maxDepth, hs]
  apply hmembers
  simp only [List.length_append, List.length_cons]
  omega

end ClassOutline.Json
