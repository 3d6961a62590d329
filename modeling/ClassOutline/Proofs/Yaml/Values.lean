import ClassOutline.Proofs.Json.Decoding
import ClassOutline.Yaml.Decode
import ClassOutline.Yaml.Writer
import Mathlib

/-!
# Values and the documents that say them

A document says a value if its nodes have the tags and texts of the value (`Json.isSaidBy`). Whatever
way it was written in, such a document is read as the value: a text, a truth value, an integer of 64
bits, a list of texts (`Node.yields_text?` and so on), and a record field by field
(`Document.read_of_said`). A field without a member in the document keeps what it had, and a list is
replaced as a whole.

Whether the text that is written for a value gives a document that says it is a question of its own
(`Json.isFaithful`), and can be computed.
-/

namespace ClassOutline

open Bytes

/-! ## Integers in decimal -/

namespace Bytes

theorem ofInt_of_neg {n : Int} (hn : n < 0) : ofInt n = 0x2D :: ofInt n.natAbs := by
  rw [ofInt, if_pos hn, ofInt_natCast]

/-- Integers are made of digits and a minus. -/
theorem ofInt_bytes (n : Int) : ∀ b ∈ ofInt n, (isDigit b || b == 0x2D) = true := by
  have hdigits (m : Nat) : ∀ b ∈ ofInt m, (isDigit b || b == 0x2D) = true := fun b hb => by
    rw [isDigit_ofInt m b hb]
    rfl
  rcases Int.lt_or_le n 0 with hn | hn
  · rw [ofInt_of_neg hn, List.forall_mem_cons]
    exact ⟨rfl, hdigits _⟩
  · obtain ⟨m, rfl⟩ := Int.eq_ofNat_of_zero_le hn
    exact hdigits m

end Bytes

namespace Yaml

open Number

theorem areDigits_of_isDigit {s : Bytes} (hne : s ≠ []) (hdigits : ∀ b ∈ s, isDigit b = true) :
    areDigits 10 s = true := by
  have hvalue : ∀ b ∈ s, ((hexValue? b).any (· < 10)) = true := by
    intro b hb
    have hdigit := hdigits b hb
    have hle : b.toNat ≤ 57 := by
      simp only [isDigit, Bool.and_eq_true, decide_eq_true_eq, UInt8.le_iff_toNat_le] at hdigit
      exact hdigit.2
    rw [hexValue?, if_pos hdigit, Option.any_some, decide_eq_true_eq]
    omega
  simp [areDigits, hne, List.all_eq_true.mpr hvalue]

theorem prefixed?_ofInt (n : Nat) : prefixed? (ofInt n) = some n := by
  by_cases hzero : ofInt n = [0x30]
  · have hn : ofDigits 10 (ofInt n) = n := ofDigits_ofInt n
    rw [hzero] at hn ⊢
    exact congrArg some hn
  · -- without a leading zero the base is ten
    have hhead : (ofInt n).head? ≠ some 0x30 := fun h => hzero (ofInt_of_head n h)
    unfold prefixed?
    split
    next heq => exact absurd heq hzero
    next heq => exact absurd (by rw [heq]; rfl) hhead
    next heq => exact absurd (by rw [heq]; rfl) hhead
    next =>
      dsimp only
      rw [if_pos (areDigits_of_isDigit (ofInt_ne_nil n) (isDigit_ofInt n)), ofDigits_ofInt]

theorem sign_ofInt (n : Nat) : sign (ofInt n) = (false, ofInt n) := by
  obtain ⟨b, more, heq⟩ := List.exists_cons_of_ne_nil (ofInt_ne_nil n)
  have hdigit : isDigit b = true := isDigit_ofInt n b (heq ▸ List.mem_cons_self)
  have hminus : b ≠ 0x2D := by rintro rfl; cases hdigit
  have hplus : b ≠ 0x2B := by rintro rfl; cases hdigit
  rw [heq]
  simp [sign, hminus, hplus]

theorem integer?_ofInt {n : Int} (hn : fitsInt64 n = true) : integer? (ofInt n) = some n := by
  have hby : integerBy prefixed? (ofInt n) = some n := by
    rcases Int.lt_or_le n 0 with hneg | hpos
    · obtain ⟨m, rfl⟩ := Int.exists_eq_neg_ofNat (Int.le_of_lt hneg)
      have hsign : sign (ofInt (-m)) = (true, ofInt m) := by
        rw [ofInt_of_neg hneg, Int.natAbs_neg, Int.natAbs_natCast]
        rfl
      simp [integerBy, hsign, prefixed?_ofInt, hn]
    · obtain ⟨m, rfl⟩ := Int.eq_ofNat_of_zero_le hpos
      simp [integerBy, sign_ofInt, prefixed?_ofInt, hn]
  rw [integer?, hby]
  rfl

/-- The words with a meaning of their own, except the empty one, have other bytes than digits and
minus signs. -/
theorem word?_of_digits {s : Bytes} (hne : s ≠ [])
    (hs : ∀ b ∈ s, (isDigit b || b == 0x2D) = true) : word? s = none := by
  have hnone (words : List String)
      (hwords : words.all (fun w => (ofString w).isEmpty || (ofString w).any fun b =>
        !(isDigit b || b == 0x2D)) = true) : ¬ words.any (fun w => ofString w == s) = true := by
    rw [List.any_eq_true]
    rintro ⟨w, hw, heq⟩
    rw [beq_iff_eq] at heq
    subst heq
    have hword := List.all_eq_true.mp hwords w hw
    rw [Bool.or_eq_true, List.isEmpty_iff, List.any_eq_true] at hword
    obtain hnil | ⟨b, hb, hother⟩ := hword
    · exact hne hnil
    · rw [hs b hb] at hother
      cases hother
  unfold word?
  dsimp only
  rw [if_neg (hnone _ rfl), if_neg (hnone _ rfl), if_neg (hnone _ rfl), if_neg (hnone _ rfl),
    if_neg (hnone _ rfl), if_neg (hnone _ rfl)]

theorem number?_ofInt {n : Int} (hn : fitsInt64 n = true) : number? (ofInt n) = some (.int n) := by
  have hplain : (ofInt n).filter (· != 0x5F) = ofInt n := by
    rw [List.filter_eq_self]
    intro b hb
    rw [bne_iff_ne]
    rintro rfl
    cases ofInt_bytes n _ hb
  rw [number?, hplain, integer?_ofInt hn]

/-- An integer of 64 bits is read back from its digits. -/
theorem resolve_ofInt {n : Int} (hn : fitsInt64 n = true) : resolve false (ofInt n) = .int n := by
  have hbytes := ofInt_bytes n
  have hnumber := number?_ofInt hn
  have hword := word?_of_digits (ofInt_ne_nil n) hbytes
  obtain ⟨b, more, heq⟩ := List.exists_cons_of_ne_nil (ofInt_ne_nil n)
  rw [heq] at hbytes hnumber hword ⊢
  have hfirst := hbytes b List.mem_cons_self
  have hpoint : (b == 0x2E) = false := by
    rw [beq_eq_false_iff_ne]
    rintro rfl
    cases hfirst
  have hsigned : (isDigit b || b == 0x2B || b == 0x2D) = true := by
    rw [Bool.or_right_comm, hfirst]
    rfl
  simp [resolve, hword, hpoint, hsigned, hnumber]

theorem Node.value?_ofInt {n : Int} (hn : fitsInt64 n = true) :
    Node.value? Tag.int (ofInt n) = some (.int n) := by
  have hstandard : [Tag.null, Tag.bool, Tag.int, Tag.float, Tag.timestamp].contains Tag.int = true :=
    rfl
  have hdates : (Tag.int == Tag.timestamp) = false := rfl
  rw [Node.value?, if_neg nofun, resolveTagged, if_neg nofun, if_pos hstandard, hdates,
    resolve_ofInt hn]
  rfl

end Yaml

/-! ## What a node says -/

namespace Json

open Yaml

mutual

/-- Whether a node says a value: a scalar with the tag and the text of the value, where a text may
stand in base64, or a collection whose nodes say the parts. A member has its name as the key. -/
def isSaidBy : Json → Node → Bool
  | .null, .scalar tag _ _ => tag == Tag.null
  | .bool b, .scalar tag text _ => tag == Tag.bool && text == ofString (if b then "true" else "false")
  | .num digits, .scalar tag text _ => tag == Tag.int && text == digits
  | .str s, .scalar tag text _ =>
    (tag == Tag.str && text == s) || (tag == Tag.binary && Base64.decode text == some s)
  | .arr items, .sequence _ nodes _ => areSaidBy items nodes
  | .obj members, .mapping _ entries _ => membersAreSaidBy members entries
  | _, _ => false

/-- Whether nodes say values, one for one. -/
def areSaidBy : List Json → List Node → Bool
  | [], [] => true
  | item :: items, n :: nodes => item.isSaidBy n && areSaidBy items nodes
  | _, _ => false

/-- Whether the entries of a mapping say members, one for one. -/
def membersAreSaidBy : List (Bytes × Json) → List (Node × Node) → Bool
  | [], [] => true
  | (name, value) :: members, (.scalar tag key _, n) :: entries =>
    tag == Tag.str && key == name && value.isSaidBy n && membersAreSaidBy members entries
  | _, _ => false

end

/-- Whether the text that is written for a value says that value when it is read. -/
def isFaithful (j : Json) : Bool :=
  match Yaml.parse (Yaml.write 4 j) with
  | some (some d) => j.isSaidBy d.root
  | _ => false

end Json

namespace Yaml

/-! ## Readings without a mismatch -/

variable {α β γ : Type}

/-- A reader that gives a value wherever no alias is involved, and has nothing to note. -/
def Reader.Yields (x : Reader α) (a : α) : Prop :=
  ∀ (place : Place) (r : Reading), place.aliases = [] → r.aliased = 0 →
    ∃ visited, x place r = some (a, { r with visited })

theorem Reader.yields_pure (a : α) : Reader.Yields (pure a) a := fun _ r _ _ => ⟨r.visited, rfl⟩

theorem Reader.Yields.bind {x : Reader α} {f : α → Reader β} {a : α} {b : β} (hx : x.Yields a)
    (hf : (f a).Yields b) : (x >>= f).Yields b := by
  intro place r hplace hr
  obtain ⟨visited, hrun⟩ := hx place r hplace hr
  obtain ⟨visited', hrun'⟩ := hf place { r with visited } hplace hr
  refine ⟨visited', ?_⟩
  change (x place r).bind (fun out => f out.1 place out.2) = _
  rw [hrun]
  exact hrun'

theorem Reader.Yields.map {x : Reader α} {a : α} (hx : x.Yields a) (f : α → β) :
    (f <$> x).Yields (f a) := by
  rw [map_eq_pure_bind]
  exact hx.bind (yields_pure (f a))

/-- Where the place is looked at, it makes no difference. -/
theorem Reader.yields_read {f : Place → Reader α} {a : α} (h : ∀ place, (f place).Yields a) :
    Reader.Yields (do let place ← read; f place) a :=
  fun place r hplace hr => h place place r hplace hr

theorem yields_visit : Reader.Yields visit () := by
  rintro ⟨document, _⟩ ⟨visited, _, mismatches⟩ rfl rfl
  exact ⟨visited + 1, rfl⟩

theorem Node.yields_visited {n : Node} {k : Node → Reader α} {a : α}
    (hn : ∀ name number anchor line, n ≠ .alias name number anchor line) (hk : (k n).Yields a) :
    (n.visited k).Yields a := by
  unfold Node.visited
  refine yields_visit.bind ?_
  match n with
  | .alias name number anchor line => exact absurd rfl (hn name number anchor line)
  | .scalar _ _ _ => exact hk
  | .sequence _ _ _ => exact hk
  | .mapping _ _ _ => exact hk

/-! ## Single values -/

section

variable {n : Node} {s : Bytes}

theorem Node.yields_scalar? {wanted : String} {rule : Bytes → Bytes → Value → Option α}
    {tag text : Bytes} {line : Nat} {v : Value} {a : α} (hvalue : value? tag text = some v)
    (hnull : v ≠ .null) (hrule : rule tag text v = some a) :
    ((Node.scalar tag text line).scalar? wanted rule).Yields (some a) := by
  refine yields_visited nofun ?_
  dsimp only
  rw [hvalue]
  cases v with
  | null => exact absurd rfl hnull
  | bool _ | int _ | float _ | timestamp | text _ =>
    dsimp only
    rw [hrule]
    exact Reader.yields_pure (some a)

theorem Node.yields_text? (h : (Json.str s).isSaidBy n = true) : n.text?.Yields (some s) := by
  match n, h with
  | .scalar tag text line, h =>
    rw [Json.isSaidBy, Bool.or_eq_true, Bool.and_eq_true, Bool.and_eq_true] at h
    simp only [beq_iff_eq] at h
    obtain ⟨rfl, rfl⟩ | ⟨rfl, hdecode⟩ := h
    · exact yields_scalar? (v := .text text) rfl nofun rfl
    · exact yields_scalar? (v := .text s) (by rw [value?, if_pos (beq_self_eq_true _), hdecode]; rfl)
        nofun rfl

theorem Node.yields_int? {i : Int} (h : (Json.int i).isSaidBy n = true)
    (hi : Number.fitsInt64 i = true) (wanted : String) : (n.int? wanted).Yields (some i) := by
  match n, h with
  | .scalar tag text line, h =>
    rw [Json.int, Json.isSaidBy, Bool.and_eq_true, beq_iff_eq, beq_iff_eq] at h
    obtain ⟨rfl, rfl⟩ := h
    have hmax : i ≤ Number.maxInt64 := by
      rw [Number.fitsInt64, Bool.and_eq_true, decide_eq_true_eq, decide_eq_true_eq] at hi
      exact hi.2
    exact yields_scalar? (v := .int i) (value?_ofInt hi) nofun (if_pos hmax)

theorem Node.yields_bool? {b : Bool} (h : (Json.bool b).isSaidBy n = true) :
    n.bool?.Yields (some b) := by
  match n, h with
  | .scalar tag text line, h =>
    rw [Json.isSaidBy, Bool.and_eq_true, beq_iff_eq, beq_iff_eq] at h
    obtain ⟨rfl, rfl⟩ := h
    cases b with
    | false => exact yields_scalar? (v := .bool false) rfl nofun rfl
    | true => exact yields_scalar? (v := .bool true) rfl nofun rfl

theorem yields_textItems {texts : List Bytes} {nodes : List Node}
    (h : Json.areSaidBy (texts.map .str) nodes = true) : (Node.textItems nodes).Yields texts := by
  induction texts generalizing nodes with
  | nil =>
    match nodes, h with
    | [], _ => exact Reader.yields_pure []
  | cons s texts ih =>
    match nodes, h with
    | n :: nodes, h =>
      rw [List.map_cons, Json.areSaidBy, Bool.and_eq_true] at h
      exact (Node.yields_text? h.1).bind ((ih h.2).bind (Reader.yields_pure _))

theorem Node.yields_texts? {texts : List Bytes} (h : (Json.arr (texts.map .str)).isSaidBy n = true) :
    n.texts?.Yields (some texts) := by
  match n, h with
  | .sequence tag nodes line, h =>
    rw [Json.isSaidBy] at h
    exact yields_visited nofun ((yields_textItems h).map some)

end

/-! ## Records -/

/-- Members that name fields of a shape, and the record before and after they are read. -/
inductive Shape.Sets (shape : Shape α) : List (String × Json) → α → α → Prop where
  | nil (a : α) : shape.Sets [] a a
  | cons {name : String} {value : Json} {rest : List (String × Json)} {read : Node → α → Reader α}
      {a b c : α} (field : shape.field? (ofString name) = some read)
      (reads : ∀ n, value.isSaidBy n = true → (read n a).Yields b) (others : shape.Sets rest b c) :
      shape.Sets ((name, value) :: rest) a c

theorem Shape.Sets.eq_of_nil {shape : Shape α} {a b : α} (h : shape.Sets [] a b) : a = b := by
  cases h
  rfl

theorem Shape.Sets.append {shape : Shape α} {fields more : List (String × Json)} {a b c : α}
    (h : shape.Sets fields a b) (hmore : shape.Sets more b c) : shape.Sets (fields ++ more) a c := by
  induction h with
  | nil a => exact hmore
  | cons field reads _ ih => exact .cons field reads (ih hmore)

section

variable {shape : Shape α} {fields : List (String × Json)} {entries : List (Node × Node)} {a b : α}

/-- The names of some fields. -/
def fieldNames (fields : List (String × Json)) : List Bytes := fields.map fun f => ofString f.1

/-- Members are said by entries whose keys are their names. -/
theorem exists_entry_of_said {name : Bytes} {value : Json} {members : List (Bytes × Json)}
    (h : Json.membersAreSaidBy ((name, value) :: members) entries = true) :
    ∃ line n more, entries = (.scalar Tag.str name line, n) :: more ∧ value.isSaidBy n = true ∧
      Json.membersAreSaidBy members more = true := by
  match entries, h with
  | (.scalar tag key line, n) :: more, h =>
    simp only [Json.membersAreSaidBy, Bool.and_eq_true, beq_iff_eq] at h
    obtain ⟨⟨⟨rfl, rfl⟩, hvalue⟩, hmore⟩ := h
    exact ⟨line, n, more, rfl, hvalue, hmore⟩

theorem not_isMergeKey (text : Bytes) (line : Nat) :
    ¬ (Node.scalar Tag.str text line).isMergeKey = true := by
  rw [Node.isMergeKey, Bool.and_eq_true]
  exact fun h => by cases h.2

theorem Draft.yields_entries (hsets : shape.Sets fields a b) {done : List Bytes}
    (hnew : ∀ name ∈ fieldNames fields, name ∉ done) (hnodup : (fieldNames fields).Nodup)
    (hsaid : Json.membersAreSaidBy (fields.map fun f => (ofString f.1, f.2)) entries = true) :
    (Draft.entries shape done entries { record := a }).Yields { record := b } := by
  induction hsets generalizing done entries with
  | nil a =>
    match entries, hsaid with
    | [], _ => exact Reader.yields_pure _
  | @cons name value rest read a b c field reads others ih =>
    obtain ⟨line, n, more, rfl, hvalue, hmore⟩ := exists_entry_of_said hsaid
    rw [fieldNames, List.map_cons, List.nodup_cons] at hnodup
    have hkey : (Json.str (ofString name)).isSaidBy (.scalar Tag.str (ofString name) line) = true := by
      simp [Json.isSaidBy]
    have hfirst : done.contains (ofString name) = false := by
      simpa using hnew _ List.mem_cons_self
    have hrest : ∀ later ∈ fieldNames rest, later ∉ ofString name :: done := by
      intro later hlater
      rw [List.mem_cons, not_or]
      exact ⟨fun heq => hnodup.1 (heq ▸ hlater), hnew later (List.mem_cons_of_mem _ hlater)⟩
    -- the key is no merge key, is a text, is not taken, names a field, and stands here first
    rw [Draft.entries, if_neg (not_isMergeKey _ _)]
    refine (Node.yields_text? hkey).bind ?_
    dsimp only [Option.any_none, Option.map_none]
    rw [if_neg Bool.false_ne_true, field]
    dsimp only
    rw [if_neg (by rw [hfirst]; exact Bool.false_ne_true)]
    exact (reads n hvalue).bind (ih hrest hnodup.2 hmore)

theorem repeatedKeys_eq_nil {entries : List (Node × Node)}
    (h : (entries.map fun e => e.1.keyText).Nodup) : Node.repeatedKeys entries = [] := by
  induction entries with
  | nil => rfl
  | cons e entries ih =>
    obtain ⟨k, v⟩ := e
    rw [List.map_cons, List.nodup_cons] at h
    have hother : (entries.filter fun e => k.sameKey e.1) = [] := by
      rw [List.filter_eq_nil_iff]
      intro e he hsame
      unfold Node.sameKey at hsame
      rw [Bool.and_eq_true, beq_iff_eq] at hsame
      exact h.1 (List.mem_map.mpr ⟨e, he, hsame.1.symm⟩)
    rw [Node.repeatedKeys, hother, ih h.2]
    rfl

theorem keyTexts_of_said {members : List (Bytes × Json)}
    (h : Json.membersAreSaidBy members entries = true) :
    entries.map (fun e => e.1.keyText) = members.map Prod.fst := by
  induction members generalizing entries with
  | nil =>
    match entries, h with
    | [], _ => rfl
  | cons member members ih =>
    obtain ⟨line, n, more, rfl, -, hmore⟩ := exists_entry_of_said h
    rw [List.map_cons, List.map_cons, ih hmore]
    rfl

theorem mergeValue?_of_said {members : List (Bytes × Json)}
    (h : Json.membersAreSaidBy members entries = true) : mergeValue? entries = none := by
  induction members generalizing entries with
  | nil =>
    match entries, h with
    | [], _ => rfl
  | cons member members ih =>
    obtain ⟨line, n, more, rfl, -, hmore⟩ := exists_entry_of_said h
    have hnext := ih hmore
    rw [mergeValue?, Option.map_eq_none_iff] at hnext ⊢
    exact (List.find?_cons_of_neg (p := fun e : Node × Node => e.1.isMergeKey)
      (not_isMergeKey member.1 line)).trans hnext

theorem exists_mapping_of_said {n : Node} (h : (Json.record fields).isSaidBy n = true) :
    ∃ tag entries line, n = .mapping tag entries line ∧
      Json.membersAreSaidBy (fields.map fun f => (ofString f.1, f.2)) entries = true := by
  cases n with
  | mapping tag entries line =>
    rw [Json.record, Json.isSaidBy] at h
    exact ⟨tag, entries, line, rfl, h⟩
  | _ => simp [Json.record, Json.isSaidBy] at h

theorem Draft.yields_onto (hsets : shape.Sets fields a b) (hnodup : (fieldNames fields).Nodup)
    {n : Node} (hsaid : (Json.record fields).isSaidBy n = true) (fuel : Nat) :
    (Draft.onto shape (fuel + 1) n { record := a }).Yields { record := b } := by
  obtain ⟨tag, entries, line, rfl, hmembers⟩ := exists_mapping_of_said hsaid
  have hrepeated : Node.repeatedKeys entries = [] := by
    refine repeatedKeys_eq_nil ?_
    rw [keyTexts_of_said hmembers, List.map_map]
    exact hnodup
  rw [Draft.onto]
  refine Node.yields_visited (by simp) ?_
  dsimp only
  rw [hrepeated, List.isEmpty_nil, Bool.not_true, if_neg Bool.false_ne_true]
  refine (Draft.yields_entries hsets (by simp) hnodup hmembers).bind ?_
  rw [mergeValue?_of_said hmembers]
  exact Reader.yields_pure _

theorem Node.yields_record (hsets : shape.Sets fields a b) (hnodup : (fieldNames fields).Nodup)
    {n : Node} (hsaid : (Json.record fields).isSaidBy n = true) : (n.record shape a).Yields b := by
  refine Reader.yields_read fun place => ?_
  -- the fuel is positive, and without merges one step is enough
  obtain ⟨fuel, hfuel⟩ := Nat.exists_eq_succ_of_ne_zero
    (Nat.mul_ne_zero (Nat.succ_ne_zero place.document.aliases) (Nat.succ_ne_zero place.document.size))
  dsimp only
  rw [hfuel]
  exact (Draft.yields_onto hsets hnodup hsaid fuel).bind (Reader.yields_pure b)

/-- A document that says a record is read as that record, without a mismatch. -/
theorem Document.read_of_said {d : Document} (hsets : shape.Sets fields a b)
    (hnodup : (fieldNames fields).Nodup) (hsaid : (Json.record fields).isSaidBy d.root = true) :
    d.read shape a = some (b, []) := by
  have hreads := yields_visit.bind (f := fun _ => d.root.record shape a)
    (Node.yields_record hsets hnodup hsaid)
  obtain ⟨visited, hrun⟩ := hreads { document := d } {} rfl rfl
  rw [Document.read]
  exact congrArg (Option.map fun r => (r.1, r.2.mismatches)) hrun

end

end Yaml

end ClassOutline
