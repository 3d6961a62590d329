import ClassOutline.Envelope
import ClassOutline.Proofs.Json.RoundTrip

/-!
# What the reader of an envelope sees

A source text need not be UTF-8, so neither are the strings of its outline. The writer replaces what
is not, which makes a document the text of another value, `Json.toUtf8` (`Json.render_toUtf8`). That
value is read back from it, and its members are found by their names (`Json.get?_record`). Where all
texts are in UTF-8, it is the value itself (`Json.toUtf8_eq_of_inUtf8`).

An envelope is such a value: `Envelope.read_document` says that whoever reads the document of an
envelope gets every member of it, with the strings in UTF-8.
-/

namespace ClassOutline

namespace Json

open Bytes

/-! ## Values in UTF-8 -/

mutual

/-- A value as it is read back from its text: every string and every name in UTF-8. -/
def toUtf8 : Json → Json
  | .null => .null
  | .bool b => .bool b
  | .num text => .num text
  | .str text => .str text.toUtf8
  | .arr items => .arr (toUtf8Items items)
  | .obj members => .obj (toUtf8Members members)

/-- The elements of an array, each in UTF-8. -/
def toUtf8Items : List Json → List Json
  | [] => []
  | item :: items => item.toUtf8 :: toUtf8Items items

/-- The members of an object, each in UTF-8. -/
def toUtf8Members : List (Bytes × Json) → List (Bytes × Json)
  | [] => []
  | (name, value) :: members => (name.toUtf8, value.toUtf8) :: toUtf8Members members

end

theorem escape_toUtf8 {s : Bytes} {r : Rune} (hr : r ∈ s.runes) :
    escape ⟨r.code, ofCodePoint r.code⟩ = escape r := by
  rcases encodes_of_mem_runes hr with h | ⟨hinvalid, hcode⟩
  · rw [← h.eq_ofCodePoint]
  · -- a byte outside every sequence is written like the character that replaces it
    have hescape : escape r = ofCodePoint Rune.replacement := by rw [escape, if_pos hinvalid]
    rw [hescape, hcode]
    decide

theorem quote_toUtf8 (s : Bytes) : quote s.toUtf8 = quote s := by
  have hrunes : s.toUtf8.runes = s.runes.map fun r => ⟨r.code, ofCodePoint r.code⟩ := by
    have hcodes := runes_flatMap_ofCodePoint s.isScalar_of_mem_codes
    rwa [List.flatMap_map, List.map_map] at hcodes
  have hescapes : s.toUtf8.runes.flatMap escape = s.runes.flatMap escape := by
    rw [hrunes, List.flatMap_map]
    exact List.flatMap_congr fun r hr => escape_toUtf8 hr
  rw [quote, quote, hescapes]

mutual

/-- The text of a value does not tell it from the value in UTF-8. -/
theorem render_toUtf8 (level : Nat) : ∀ j : Json, render level j.toUtf8 = render level j
  | .null => rfl
  | .bool _ => rfl
  | .num _ => rfl
  | .str text => by rw [toUtf8, render, render, quote_toUtf8]
  | .arr [] => rfl
  | .arr (item :: items) => by
    rw [toUtf8, toUtf8Items, render, render, render_toUtf8 (level + 1) item,
      renderItems_toUtf8 (level + 1) items]
  | .obj [] => rfl
  | .obj ((name, value) :: members) => by
    rw [toUtf8, toUtf8Members, render, render, quote_toUtf8, render_toUtf8 (level + 1) value,
      renderMembers_toUtf8 (level + 1) members]

theorem renderItems_toUtf8 (level : Nat) :
    ∀ items : List Json, renderItems level (toUtf8Items items) = renderItems level items
  | [] => rfl
  | item :: items => by
    rw [toUtf8Items, renderItems, renderItems, render_toUtf8 level item,
      renderItems_toUtf8 level items]

theorem renderMembers_toUtf8 (level : Nat) : ∀ members : List (Bytes × Json),
    renderMembers level (toUtf8Members members) = renderMembers level members
  | [] => rfl
  | (name, value) :: members => by
    rw [toUtf8Members, renderMembers, renderMembers, quote_toUtf8, render_toUtf8 level value,
      renderMembers_toUtf8 level members]

end

/-- A document is read as the value in UTF-8. -/
theorem read_document_toUtf8 {j : Json} (h : Readable maxDepth j.toUtf8) :
    read j.document = .ok (j.toUtf8, [10]) := by
  have hdocument : j.document = j.toUtf8.document := by rw [document, document, render_toUtf8]
  rw [hdocument]
  exact read_document h

@[simp] theorem toUtf8_str (s : Bytes) : (Json.str s).toUtf8 = .str s.toUtf8 := rfl

@[simp] theorem toUtf8_arr {α : Type} (f : α → Json) (xs : List α) :
    (Json.arr (xs.map f)).toUtf8 = .arr (xs.map fun x => (f x).toUtf8) := by
  rw [toUtf8]
  congr 1
  induction xs with
  | nil => rfl
  | cons x xs ih => rw [List.map_cons, toUtf8Items, ih, List.map_cons]

/-- The names of a record are literals, which are in UTF-8. -/
@[simp] theorem toUtf8_record (fields : List (String × Json)) :
    (record fields).toUtf8 = record (fields.map fun f => (f.1, f.2.toUtf8)) := by
  rw [record, record, toUtf8]
  congr 1
  induction fields with
  | nil => rfl
  | cons f fields ih =>
    rw [List.map_cons, toUtf8Members, toUtf8_eq_self (isUtf8_ofString f.1), ih]
    rfl

end Json

/-! ## Values that are in UTF-8 -/

/-- Every text is in UTF-8. -/
def InUtf8 (texts : List Bytes) : Prop := ∀ s ∈ texts, s.isUtf8 = true

namespace InUtf8

instance (texts : List Bytes) : Decidable (InUtf8 texts) :=
  inferInstanceAs (Decidable (∀ s ∈ texts, s.isUtf8 = true))

@[simp] theorem nil : InUtf8 [] := List.forall_mem_nil _

@[simp] theorem cons_iff {s : Bytes} {texts : List Bytes} :
    InUtf8 (s :: texts) ↔ s.isUtf8 = true ∧ InUtf8 texts :=
  List.forall_mem_cons

@[simp] theorem append_iff {texts more : List Bytes} :
    InUtf8 (texts ++ more) ↔ InUtf8 texts ∧ InUtf8 more :=
  List.forall_mem_append

@[simp] theorem flatMap_iff {α : Type} {f : α → List Bytes} {xs : List α} :
    InUtf8 (xs.flatMap f) ↔ ∀ x ∈ xs, InUtf8 (f x) :=
  List.forall_mem_flatMap

end InUtf8

namespace Json

open Bytes

mutual

/-- The strings and names of a value. -/
def texts : Json → List Bytes
  | .null => []
  | .bool _ => []
  | .num _ => []
  | .str text => [text]
  | .arr items => textsItems items
  | .obj members => textsMembers members

/-- The texts of the elements of an array. -/
def textsItems : List Json → List Bytes
  | [] => []
  | item :: items => item.texts ++ textsItems items

/-- The names of the members of an object, and the texts of their values. -/
def textsMembers : List (Bytes × Json) → List Bytes
  | [] => []
  | (name, value) :: members => name :: (value.texts ++ textsMembers members)

end

mutual

/-- A value whose texts are in UTF-8 is read back as it was. -/
theorem toUtf8_eq_of_inUtf8 : ∀ j : Json, InUtf8 j.texts → j.toUtf8 = j
  | .null, _ => rfl
  | .bool _, _ => rfl
  | .num _, _ => rfl
  | .str text, h => by rw [toUtf8, toUtf8_eq_self (h text (by simp [texts]))]
  | .arr items, h => by rw [toUtf8, toUtf8Items_eq_of_inUtf8 items h]
  | .obj members, h => by rw [toUtf8, toUtf8Members_eq_of_inUtf8 members h]

theorem toUtf8Items_eq_of_inUtf8 : ∀ items : List Json, InUtf8 (textsItems items) →
    toUtf8Items items = items
  | [], _ => rfl
  | item :: items, h => by
    obtain ⟨hitem, hitems⟩ := InUtf8.append_iff.mp h
    rw [toUtf8Items, toUtf8_eq_of_inUtf8 item hitem, toUtf8Items_eq_of_inUtf8 items hitems]

theorem toUtf8Members_eq_of_inUtf8 : ∀ members : List (Bytes × Json),
    InUtf8 (textsMembers members) → toUtf8Members members = members
  | [], _ => rfl
  | (name, value) :: members, h => by
    obtain ⟨hname, hrest⟩ := InUtf8.cons_iff.mp h
    obtain ⟨hvalue, hmembers⟩ := InUtf8.append_iff.mp hrest
    rw [toUtf8Members, toUtf8_eq_self hname, toUtf8_eq_of_inUtf8 value hvalue,
      toUtf8Members_eq_of_inUtf8 members hmembers]

end

@[simp] theorem texts_null : Json.null.texts = [] := rfl

@[simp] theorem texts_bool (b : Bool) : (Json.bool b).texts = [] := rfl

@[simp] theorem texts_int (n : Int) : (Json.int n).texts = [] := rfl

@[simp] theorem texts_str (s : Bytes) : (Json.str s).texts = [s] := rfl

@[simp] theorem texts_strOrNull (s : Option Bytes) : (strOrNull s).texts = s.toList := by
  cases s with
  | none => rfl
  | some s => rfl

@[simp] theorem texts_arr {α : Type} (f : α → Json) (xs : List α) :
    (Json.arr (xs.map f)).texts = xs.flatMap fun x => (f x).texts := by
  rw [texts]
  induction xs with
  | nil => rfl
  | cons x xs ih => rw [List.map_cons, textsItems, ih, List.flatMap_cons]

/-- The names of a record need no mention, since they are literals. -/
@[simp] theorem inUtf8_record {fields : List (String × Json)} :
    InUtf8 (record fields).texts ↔ ∀ f ∈ fields, InUtf8 f.2.texts := by
  rw [record, texts]
  induction fields with
  | nil => simp [textsMembers]
  | cons f fields ih =>
    rw [List.map_cons, textsMembers, List.forall_mem_cons, ← ih]
    simp [isUtf8_ofString]

/-! ## Members -/

/-- A member of a record is found by its name. -/
theorem get?_record (name : String) (fields : List (String × Json)) :
    (record fields).get? name = (fields.reverse.find? fun f => f.1 = name).map Prod.snd := by
  have hsame : ((fun m : Bytes × Json => m.1 == ofString name) ∘
      fun f : String × Json => (ofString f.1, f.2)) = fun f => decide (f.1 = name) := by
    funext f
    simp [ofString_inj, Bool.beq_eq_decide_eq]
  rw [record, get?, ← List.map_reverse, List.find?_map, hsame, Option.map_map]
  rfl

theorem Readable.record {depth : Nat} {fields : List (String × Json)}
    (h : ∀ f ∈ fields, Readable depth f.2) : Readable (depth + 1) (Json.record fields) := by
  apply Readable.obj
  · intro m hm
    obtain ⟨f, -, rfl⟩ := List.mem_map.mp hm
    exact isUtf8_ofString f.1
  · intro m hm
    obtain ⟨f, hf, rfl⟩ := List.mem_map.mp hm
    exact h f hf

theorem Readable.toUtf8_str {depth : Nat} (s : Bytes) : Readable depth (Json.str s).toUtf8 :=
  .str (isUtf8_toUtf8 s)

theorem Readable.toUtf8_strOrNull {depth : Nat} (s : Option Bytes) :
    Readable depth (strOrNull s).toUtf8 := by
  cases s with
  | none => exact .null
  | some s => exact .toUtf8_str s

theorem Readable.map {depth : Nat} {α : Type} {f : α → Json} (h : ∀ x, Readable depth (f x))
    (xs : List α) : Readable (depth + 1) (.arr (xs.map f)) := by
  apply Readable.arr
  intro item hitem
  obtain ⟨x, -, rfl⟩ := List.mem_map.mp hitem
  exact h x

end Json

/-! ## Outlines and envelopes -/

open Json (Readable)

variable {depth : Nat}

theorem Attribute.readable_toJson (a : Attribute) : Readable (depth + 1) a.toJson.toUtf8 := by
  rw [toJson, Json.toUtf8_record]
  apply Readable.record
  simp only [List.map_cons, List.map_nil, List.forall_mem_cons]
  exact ⟨.toUtf8_str _, .toUtf8_str _, .toUtf8_str _, by simp⟩

theorem Method.readable_toJson (m : Method) : Readable (depth + 1) m.toJson.toUtf8 := by
  rw [toJson, Json.toUtf8_record]
  apply Readable.record
  simp only [List.map_cons, List.map_nil, List.forall_mem_cons]
  exact ⟨.toUtf8_str _, .toUtf8_str _, .toUtf8_str _, .toUtf8_str _, by simp⟩

theorem ClassInfo.readable_toJson (c : ClassInfo) : Readable (depth + 3) c.toJson.toUtf8 := by
  rw [toJson, Json.toUtf8_record]
  apply Readable.record
  simp only [List.map_cons, List.map_nil, List.forall_mem_cons, Json.toUtf8_arr]
  exact ⟨.toUtf8_str _, .map Attribute.readable_toJson _, .map Method.readable_toJson _,
    .toUtf8_strOrNull _, .map Json.Readable.toUtf8_str _, by simp⟩

theorem FunctionInfo.readable_toJson (f : FunctionInfo) : Readable (depth + 1) f.toJson.toUtf8 := by
  rw [toJson, Json.toUtf8_record]
  apply Readable.record
  simp only [List.map_cons, List.map_nil, List.forall_mem_cons]
  exact ⟨.toUtf8_str _, .toUtf8_str _, .toUtf8_str _, by simp⟩

theorem Edge.readable_toJson (e : Edge) : Readable (depth + 1) e.toJson.toUtf8 := by
  rw [toJson, Json.toUtf8_record]
  apply Readable.record
  simp only [List.map_cons, List.map_nil, List.forall_mem_cons]
  exact ⟨.toUtf8_str _, .toUtf8_str _, .toUtf8_str _, by simp⟩

theorem Outline.readable_toJson (o : Outline) : Readable (depth + 5) o.toJson.toUtf8 := by
  rw [toJson, Json.toUtf8_record]
  apply Readable.record
  simp only [List.map_cons, List.map_nil, List.forall_mem_cons, Json.toUtf8_arr]
  exact ⟨.map ClassInfo.readable_toJson _, .map FunctionInfo.readable_toJson _,
    .map Edge.readable_toJson _, by simp⟩

namespace Envelope

theorem readable_toJson (e : Envelope) : Readable (depth + 6) e.toJson.toUtf8 := by
  have hresult : Readable (depth + 5) ((e.result.map Outline.toJson).getD .null).toUtf8 := by
    cases e.result with
    | none => exact .null
    | some o => exact o.readable_toJson
  rw [toJson, Json.toUtf8_record]
  apply Readable.record
  simp only [List.map_cons, List.map_nil, List.forall_mem_cons]
  exact ⟨.bool _, .toUtf8_str _, hresult, .toUtf8_strOrNull _, .toUtf8_strOrNull _, by simp⟩

/-- **The document of an envelope is read as the envelope**, with its strings in UTF-8. -/
theorem read_document (e : Envelope) : Json.read e.toJson.document = .ok (e.toJson.toUtf8, [10]) :=
  Json.read_document_toUtf8 (@readable_toJson 9994 e)

end Envelope

end ClassOutline
