import ClassOutline.Number.Decimal
import ClassOutline.Proofs.Json.Documents
import Mathlib.Data.List.Forall2

/-!
# Reading records back from JSON

A record is written as an object with a member for each of its fields. Whoever reads it knows the
names of the fields and the kind of each: a text, a flag, a count, a list, another record, or one of
these that may be absent. This module has a decoder for each kind, and a law that says when a
decoder undoes a writer (`Json.Inverts`), from which the laws for lists and optional values follow.

A member that is not there counts like null, and null stands for nothing of its kind: the empty
text, no, zero, the empty list, an absent value. So a writer may leave such a member out
(`Json.written`), and a decoder does not show whether it did. That is a matter of its own: a record
follows its declaration (`Json.Follows`) if each field has a value, null or no member in the object
as the declaration says.

Counts are the only numbers. They are written in decimal without leading zeros, which makes them
numbers of JSON (`Json.isNumeral_count`), and are read back digit by digit (`Number.nat?_ofInt`).
-/

namespace ClassOutline

open Bytes

/-! ## Counts in decimal -/

namespace Bytes

/-- The digits of a count. -/
theorem ofInt_natCast (n : Nat) :
    ofInt n = (Nat.toDigits 10 n).map fun c => c.toNat.toUInt8 := by
  simp [ofInt]

theorem toNat_of_isDigit {c : Char} (hc : c.isDigit = true) : 48 ≤ c.toNat ∧ c.toNat ≤ 57 := by
  simpa [Char.isDigit, UInt32.le_iff_toNat_le] using hc

/-- What a digit is as a byte. -/
theorem digit_byte {c : Char} (hc : c.isDigit = true) :
    isDigit c.toNat.toUInt8 = true ∧ hexValue? c.toNat.toUInt8 = some (c.toNat - 48) := by
  have hrange := toNat_of_isDigit hc
  have hbytes : ∀ m < 10, isDigit (48 + m).toUInt8 = true ∧
      hexValue? (48 + m).toUInt8 = some m := by decide
  obtain ⟨m, hm⟩ := Nat.exists_eq_add_of_le hrange.1
  rw [hm, Nat.add_sub_cancel_left]
  exact hbytes m (by omega)

theorem isDigit_ofInt (n : Nat) : ∀ b ∈ ofInt n, isDigit b = true := by
  intro b hb
  rw [ofInt_natCast] at hb
  obtain ⟨c, hc, rfl⟩ := List.mem_map.mp hb
  exact (digit_byte (Nat.isDigit_of_mem_toDigits (by decide) (by decide) hc)).1

theorem ofInt_ne_nil (n : Int) : ofInt n ≠ [] := by
  unfold ofInt
  split <;> simp [Nat.toDigits_ne_nil]

/-- Only zero begins with a zero. -/
theorem head_toDigits {n : Nat} (hn : 0 < n) : (Nat.toDigits 10 n).head? ≠ some '0' := by
  induction n using Nat.strongRecOn with
  | ind n ih =>
    rw [Nat.toDigits_eq_if (by decide)]
    split
    · next hlt =>
      have hall : ∀ m < 10, 0 < m → [m.digitChar].head? ≠ some '0' := by decide
      exact hall n hlt hn
    · next hge =>
      -- the leading digit is that of the number without its last digit
      rw [List.head?_append_of_ne_nil _ Nat.toDigits_ne_nil]
      exact ih (n / 10) (by omega) (by omega)

/-- A count that begins with a zero is zero. -/
theorem ofInt_of_head (n : Nat) (hhead : (ofInt n).head? = some 0x30) : ofInt n = [0x30] := by
  rcases Nat.eq_zero_or_pos n with rfl | hpos
  · rfl
  · -- a digit whose byte is that of zero is the digit zero
    rw [ofInt_natCast, List.head?_map] at hhead
    obtain ⟨c, hc, hbyte⟩ := Option.map_eq_some_iff.mp hhead
    have hdigit := Nat.isDigit_of_mem_toDigits (b := 10) (by decide) (by decide)
      (List.mem_of_head? hc)
    have hvalue := (digit_byte hdigit).2
    rw [hbyte] at hvalue
    have hzero : 0 = c.toNat - 48 := Option.some.inj hvalue
    have hrange := toNat_of_isDigit hdigit
    have hchar : c = '0' := Char.toNat_inj.mp (by show c.toNat = 48; omega)
    exact absurd (hchar ▸ hc) (head_toDigits hpos)

end Bytes

theorem Number.ofDigits_ofInt (n : Nat) : Number.ofDigits 10 (ofInt n) = n := by
  rw [Number.ofDigits, ofInt_natCast, List.foldl_map]
  conv_rhs => rw [← Nat.ofDigitChars_ten_toDigits (n := n), Nat.ofDigitChars_eq_foldl]
  apply List.foldl_ext
  intro m c hc
  rw [(digit_byte (Nat.isDigit_of_mem_toDigits (by decide) (by decide) hc)).2]
  rfl

/-- A count is read back from its digits. -/
theorem Number.nat?_ofInt (n : Nat) : Number.nat? (ofInt n) = some n := by
  have hall : (ofInt n).all isDigit = true := List.all_eq_true.mpr (isDigit_ofInt n)
  simp [Number.nat?, hall, Number.ofDigits_ofInt, ofInt_ne_nil]

namespace Json

/-- Digits without a leading zero are read whole. -/
theorem wholePart_digits {text rest : Bytes} (hne : text ≠ [])
    (hdigits : ∀ b ∈ text, isDigit b = true) (hlead : text.head? = some 0x30 → text = [0x30])
    (hrest : rest.head?.any isDigit = false) : wholePart (text ++ rest) = .ok (text, rest) := by
  cases text with
  | nil => exact absurd rfl hne
  | cons b more =>
    by_cases hzero : b = 0x30
    · -- a zero stands alone
      subst hzero
      rw [hlead rfl]
      rfl
    · have hwhole : wholePart (b :: more ++ rest) = digits1 (b :: more ++ rest) := by
        rw [wholePart]
        exact fun _ h => hzero (List.cons.inj h).1
      have htake := Read.takeWhile_append_stop hdigits hrest
      have hdrop := Read.dropWhile_append_stop hdigits hrest
      rw [hwhole]
      rw [List.cons_append] at htake hdrop ⊢
      rw [digits1, if_pos (hdigits b List.mem_cons_self), htake, hdrop]

/-- Digits without a leading zero are a number of JSON. -/
theorem isNumeral_of_digits {text : Bytes} (hne : text ≠ [])
    (hdigits : ∀ b ∈ text, isDigit b = true) (hlead : text.head? = some 0x30 → text = [0x30]) :
    IsNumeral text where
  first := by
    obtain ⟨b, more, rfl⟩ := List.exists_cons_of_ne_nil hne
    simp [hdigits b List.mem_cons_self]
  read := by
    intro rest hrest
    have hwhole : wholePart (text ++ rest) = .ok (text, rest) := by
      apply wholePart_digits hne hdigits hlead
      cases rest with
      | nil => rfl
      | cons c rest => simp_all [EndsNumber]
    have hfraction : fraction rest = .ok ([], rest) := by
      cases rest with
      | nil => rfl
      | cons c rest => simp_all [EndsNumber, fraction]
    have hexponent : exponent rest = .ok ([], rest) := by
      cases rest with
      | nil => rfl
      | cons c rest => simp_all [EndsNumber, exponent]
    -- a digit is no sign
    obtain ⟨b, more, rfl⟩ := List.exists_cons_of_ne_nil hne
    have hminus : b ≠ 0x2D := by
      rintro rfl
      exact absurd (hdigits _ List.mem_cons_self) (by decide)
    rw [List.cons_append] at hwhole ⊢
    simp [number, hminus, hwhole, hfraction, hexponent, bind, Except.bind, pure, Except.pure]

/-- A count is a number of JSON. -/
theorem isNumeral_count (n : Nat) : IsNumeral (ofInt n) :=
  isNumeral_of_digits (ofInt_ne_nil n) (isDigit_ofInt n) (ofInt_of_head n)

/-! ## Decoders -/

/-- The members of an object by their names. A name that the object does not have is null, and null
in place of an object has no names at all. -/
def fields? : Json → Option (String → Json)
  | .obj members => some fun name => ((Json.obj members).get? name).getD .null
  | .null => some fun _ => .null
  | _ => none

def text? : Json → Option Bytes
  | .str s => some s
  | .null => some []
  | _ => none

def flag? : Json → Option Bool
  | .bool b => some b
  | .null => some false
  | _ => none

def count? : Json → Option Nat
  | .num text => Number.nat? text
  | .null => some 0
  | _ => none

/-- A value that may be absent: only null says that it is, so the empty text is a text here. -/
def optional? {α : Type} (decode : Json → Option α) : Json → Option (Option α)
  | .null => some none
  | j => (decode j).map some

/-- A list, element by element. -/
def list? {α : Type} (decode : Json → Option α) : Json → Option (List α)
  | .arr items => items.mapM decode
  | .null => some []
  | _ => none

/-! ## Decoders that undo writers -/

variable {α : Type} {decode : Json → Option α} {encode : α → Json}

/-- The decoder gives back whatever was written. -/
def Inverts (decode : Json → Option α) (encode : α → Json) : Prop :=
  ∀ x, decode (encode x) = some x

@[simp] theorem text?_str (s : Bytes) : text? (.str s) = some s := rfl

@[simp] theorem flag?_bool (b : Bool) : flag? (.bool b) = some b := rfl

@[simp] theorem count?_int (n : Nat) : count? (.int n) = some n := Number.nat?_ofInt n

theorem Inverts.list (h : Inverts decode encode) (xs : List α) :
    list? decode (.arr (xs.map encode)) = some xs := by
  show (xs.map encode).mapM decode = some xs
  induction xs with
  | nil => rfl
  | cons x xs ih => simp [h x, ih]

/-- What is never written as null may be absent. -/
theorem Inverts.optional (h : Inverts decode encode) (hnull : ∀ x, encode x ≠ .null)
    (o : Option α) : optional? decode ((o.map encode).getD .null) = some o := by
  cases o with
  | none => rfl
  | some x =>
    show optional? decode (encode x) = some (some x)
    rw [optional?, h x]
    · rfl
    · exact hnull x

theorem optional?_strOrNull (s : Option Bytes) : optional? text? (strOrNull s) = some s := by
  cases s with
  | none => rfl
  | some s => rfl

/-- The members of a record by their names. -/
theorem fields?_record (fields : List (String × Json)) : fields? (record fields) =
    some fun name => ((fields.reverse.find? fun f => f.1 = name).map Prod.snd).getD .null := by
  show (some fun name => ((record fields).get? name).getD .null) = _
  simp only [get?_record]

/-! ## Records that leave members out -/

/-- The members of a record, without those that have no value. -/
def written (fields : List (String × Option Json)) : List (String × Json) :=
  fields.flatMap fun f => f.2.toList.map fun j => (f.1, j)

section

variable {fields : List (String × Option Json)}

theorem mem_written {m : String × Json} :
    m ∈ written fields ↔ ∃ f ∈ fields, m.1 = f.1 ∧ m.2 ∈ f.2 := by
  simp only [written, List.mem_flatMap, List.mem_map, Option.mem_toList]
  constructor
  · rintro ⟨f, hf, j, hj, rfl⟩
    exact ⟨f, hf, rfl, hj⟩
  · rintro ⟨f, hf, hname, hj⟩
    exact ⟨f, hf, m.2, hj, by rw [← hname]⟩

theorem find?_written_of_not_mem {name : String}
    (h : name ∉ fields.map Prod.fst) :
    (written fields).reverse.find? (fun f => f.1 = name) = none := by
  rw [List.find?_eq_none]
  intro m hm
  obtain ⟨f, hf, hname, -⟩ := mem_written.mp (List.mem_reverse.mp hm)
  have hne : m.1 ≠ name := fun heq => h (List.mem_map.mpr ⟨f, hf, hname ▸ heq⟩)
  simpa using hne

/-- Where each name stands once, a member has the value that belongs to its name, if any. -/
theorem get?_record_written
    (hnodup : (fields.map Prod.fst).Nodup) (name : String) :
    (record (written fields)).get? name =
      (fields.find? fun f => f.1 = name).bind Prod.snd := by
  rw [get?_record]
  induction fields with
  | nil => rfl
  | cons f fields ih =>
    obtain ⟨hnew, hnodup⟩ := List.nodup_cons.mp hnodup
    have hsplit : (written (f :: fields)).reverse =
        (written fields).reverse ++ (f.2.toList.map fun j => (f.1, j)).reverse := by
      simp [written]
    rw [hsplit, List.find?_append]
    by_cases hname : f.1 = name
    · -- no later member has this name
      subst hname
      rw [find?_written_of_not_mem hnew]
      cases hvalue : f.2 with
      | none => simp [hvalue]
      | some j => simp [hvalue]
    · have hother :
          (f.2.toList.map fun j => (f.1, j)).reverse.find? (fun g => g.1 = name) = none := by
        cases f.2 with
        | none => rfl
        | some j => simp [hname]
      rw [hother, Option.or_none, ih hnodup, List.find?_cons_of_neg (by simpa using hname)]

theorem fields?_written
    (hnodup : (fields.map Prod.fst).Nodup) : fields? (record (written fields)) =
      some fun name => ((fields.find? fun f => f.1 = name).bind Prod.snd).getD .null := by
  show (some fun name => ((record (written fields)).get? name).getD .null) = _
  simp only [get?_record_written hnodup]

theorem Readable.toUtf8_written {depth : Nat}
    (h : ∀ f ∈ fields, ∀ j ∈ f.2, Readable depth j.toUtf8) :
    Readable (depth + 1) (Json.record (Json.written fields)).toUtf8 := by
  rw [toUtf8_record]
  apply Readable.record
  intro n hn
  obtain ⟨m, hm, rfl⟩ := List.mem_map.mp hn
  obtain ⟨f, hf, -, hj⟩ := mem_written.mp hm
  exact h f hf m.2 hj

theorem inUtf8_written :
    InUtf8 (record (written fields)).texts ↔ ∀ f ∈ fields, ∀ j ∈ f.2, InUtf8 j.texts := by
  rw [inUtf8_record]
  constructor
  · intro h f hf j hj
    exact h (f.1, j) (mem_written.mpr ⟨f, hf, rfl, hj⟩)
  · intro h m hm
    obtain ⟨f, hf, -, hj⟩ := mem_written.mp hm
    exact h f hf m.2 hj

end

/-! ## How members stand for fields -/

/-- How a field stands in an object. -/
inductive Standing where
  /-- There is a member, and it is not null. -/
  | value
  /-- There is a member, and it is null. -/
  | null
  /-- There is no member. -/
  | missing
deriving DecidableEq, Repr

namespace Standing

/-- The standing of a field whose member, if any, is given. -/
def ofMember : Option Json → Standing
  | none => .missing
  | some .null => .null
  | some _ => .value

/-- A field that is null while it has no value. -/
def nullable (present : Bool) : Standing := if present then .value else .null

/-- A field that is left out while it has no value. -/
def omittable (present : Bool) : Standing := if present then .value else .missing

end Standing

/-- The object has the declared fields with their standings, and no other members. -/
def Follows (j : Json) (declared : List (String × Standing)) : Prop :=
  ∀ name, Standing.ofMember (j.get? name) = (declared.lookup name).getD .missing

/-- The member is an array that has one element for each element of the list, in its order. -/
def Lists (WrittenAs : α → Json → Prop) (xs : List α) (j : Json) (name : String) : Prop :=
  ∃ items, j.get? name = some (.arr items) ∧ List.Forall₂ WrittenAs xs items

/-- Where there is a value, the member stands for it. -/
def Holds (WrittenAs : α → Json → Prop) (x : Option α) (j : Json) (name : String) : Prop :=
  ∀ v ∈ x, ∃ item, j.get? name = some item ∧ WrittenAs v item

theorem lookup_map_ofMember (fields : List (String × Option Json)) (name : String) :
    ((fields.map fun f => (f.1, Standing.ofMember f.2)).lookup name).getD .missing =
      Standing.ofMember ((fields.find? fun f => f.1 = name).bind Prod.snd) := by
  induction fields with
  | nil => rfl
  | cons f fields ih =>
    by_cases hname : f.1 = name
    · simp [hname]
    · have hother : (name == f.1) = false := by simpa using fun h => hname h.symm
      have hskip : (f :: fields).find? (fun f => f.1 = name) = fields.find? fun f => f.1 = name :=
        List.find?_cons_of_neg (by simpa using hname)
      rw [hskip, ← ih, List.map_cons, List.lookup_cons, hother]

variable {declared : List (String × Standing)}

/-- A record with the members of some fields follows what these declare. -/
theorem follows_written {fields : List (String × Option Json)}
    (hnodup : (fields.map Prod.fst).Nodup)
    (hdeclared : (fields.map fun f => (f.1, Standing.ofMember f.2)) = declared) :
    (record (written fields)).Follows declared := by
  intro name
  rw [get?_record_written hnodup, ← hdeclared, lookup_map_ofMember]

theorem written_map_some (fields : List (String × Json)) :
    written (fields.map fun f => (f.1, some f.2)) = fields := by
  induction fields with
  | nil => rfl
  | cons f fields ih => exact congrArg (f :: ·) ih

theorem follows_record {fields : List (String × Json)} (hnodup : (fields.map Prod.fst).Nodup)
    (hdeclared : (fields.map fun f => (f.1, Standing.ofMember (some f.2))) = declared) :
    (record fields).Follows declared := by
  rw [← written_map_some fields]
  apply follows_written
  · rw [List.map_map]
    exact hnodup
  · rw [List.map_map]
    exact hdeclared

theorem ofMember_of_ne_null {j : Json} (h : j ≠ .null) : Standing.ofMember (some j) = .value := by
  cases j with
  | null => exact absurd rfl h
  | bool | num | str | arr | obj => rfl

/-- A field whose values are not written as null can be null without a value. -/
theorem ofMember_getD_map (hnull : ∀ x, encode x ≠ .null) (o : Option α) :
    Standing.ofMember (some ((o.map encode).getD .null)) = .nullable o.isSome := by
  cases o with
  | none => rfl
  | some x => exact ofMember_of_ne_null (hnull x)

/-- A field whose values are not written as null can be left out without a value. -/
theorem ofMember_map (hnull : ∀ x, encode x ≠ .null) (o : Option α) :
    Standing.ofMember (o.map encode) = .omittable o.isSome := by
  cases o with
  | none => rfl
  | some x => exact ofMember_of_ne_null (hnull x)

theorem ofMember_strOrNull (s : Option Bytes) :
    Standing.ofMember (some (strOrNull s)) = .nullable s.isSome := by
  cases s with
  | none => rfl
  | some s => rfl

section

variable {WrittenAs : α → Json → Prop} {j : Json} {name : String}

theorem Lists.of_map {xs : List α} (hget : j.get? name = some (.arr (xs.map encode)))
    (h : ∀ x, WrittenAs x (encode x)) : Lists WrittenAs xs j name := by
  refine ⟨_, hget, ?_⟩
  rw [List.forall₂_map_right_iff, List.forall₂_same]
  exact fun x _ => h x

theorem Holds.of_map {x : Option α} (hget : ∀ v ∈ x, j.get? name = some (encode v))
    (h : ∀ x, WrittenAs x (encode x)) : Holds WrittenAs x j name :=
  fun v hv => ⟨encode v, hget v hv, h v⟩

end

end Json

end ClassOutline
