import ClassOutline.Http.Multipart
import ClassOutline.Proofs.Http.MediaTypes
import ClassOutline.Proofs.Text.Endings

/-!
# A form in several parts

A form is sent in parts by writing each field, and each file, between lines that hold a boundary. What
is written so is read back (`Multipart.parts_bodyText`), provided that the boundary stands in no content:
no line end in a content can then be taken for the one in front of the boundary, because the text that
marks the end of a part begins with a carriage return and has no other (`Bytes.prefix_of_prefix_append`).
-/

namespace ClassOutline.Http.Multipart

open Bytes

/-! ## What is written -/

/-- A byte of a boundary. -/
def isBoundaryByte (b : UInt8) : Bool :=
  isLetter b || isDigit b || List.elem b (Bytes.ofString "\x27()+_,-./:=? ")

/-- A boundary, as the standard for such bodies has it. -/
structure IsBoundary (boundary : Bytes) : Prop where
  ne_nil : boundary ≠ []
  short : boundary.length ≤ 70
  bytes : ∀ b ∈ boundary, isBoundaryByte b = true

instance (boundary : Bytes) : Decidable (IsBoundary boundary) :=
  decidable_of_iff (boundary ≠ [] ∧ boundary.length ≤ 70 ∧ boundary.all isBoundaryByte = true)
    ⟨fun h => ⟨h.1, h.2.1, List.all_eq_true.mp h.2.2⟩,
      fun h => ⟨h.1, h.2, List.all_eq_true.mpr h.3⟩⟩

/-- A text that can stand between quotes on a header line: no control character, no quote and no
backslash. -/
def IsQuotable (s : Bytes) : Prop := ∀ b ∈ s, 0x20 ≤ b ∧ b ≠ 0x7F ∧ b ≠ 0x22 ∧ b ≠ 0x5C

instance (s : Bytes) : Decidable (IsQuotable s) := List.decidableBAll _ s

/-- A value of a header line: without control characters, and with no gap at either end. -/
structure IsValue (v : Bytes) : Prop where
  ne_nil : v ≠ []
  bytes : ∀ b ∈ v, 0x20 ≤ b ∧ b ≠ 0x7F
  head : v.head?.any isGap = false
  last : v.getLast?.any isGap = false

instance (v : Bytes) : Decidable (IsValue v) :=
  haveI : Decidable (∀ b ∈ v, 0x20 ≤ b ∧ b ≠ 0x7F) := List.decidableBAll _ v
  decidable_of_iff (v ≠ [] ∧ (∀ b ∈ v, 0x20 ≤ b ∧ b ≠ 0x7F) ∧ v.head?.any isGap = false ∧
    v.getLast?.any isGap = false)
    ⟨fun h => ⟨h.1, h.2.1, h.2.2.1, h.2.2.2⟩, fun h => ⟨h.1, h.2, h.3, h.4⟩⟩

/-- A field of a form, or a file with its name. A content type may be given with it. -/
structure Entry where
  name : Bytes
  filename : Option Bytes := none
  type : Option Bytes := none
  content : Bytes

namespace Entry

/-- The parameters of the disposition. -/
def params (e : Entry) : List (Bytes × Bytes) :=
  (Bytes.ofString "name", e.name) ::
    (e.filename.map fun f => (Bytes.ofString "filename", f)).toList

/-- A parameter with its value in quotes. -/
def paramText (p : Bytes × Bytes) : Bytes := 0x3B :: 0x20 :: (p.1 ++ 0x3D :: 0x22 :: (p.2 ++ [0x22]))

/-- The disposition: what the part is for. -/
def disposition (e : Entry) : Bytes := Bytes.ofString "form-data" ++ e.params.flatMap paramText

/-- The header fields. -/
def headers (e : Entry) : List (Bytes × Bytes) :=
  (Bytes.ofString "Content-Disposition", e.disposition) ::
    (e.type.map fun t => (Bytes.ofString "Content-Type", t)).toList

/-- The part that an entry is sent as. -/
def part (e : Entry) : Part := ⟨e.headers, e.content⟩

/-- An entry that can be written: it has a name, and what goes on header lines is fit for them. -/
structure IsWritable (e : Entry) : Prop where
  name_ne_nil : e.name ≠ []
  name : IsQuotable e.name
  filename : ∀ f ∈ e.filename, f ≠ [] ∧ IsQuotable f
  type : ∀ t ∈ e.type, IsValue t

end Entry

/-- A header line. -/
def lineText (h : Bytes × Bytes) : Bytes := h.1 ++ 0x3A :: 0x20 :: h.2

/-- A part as it is written: header lines, an empty line and the content. -/
def partText (e : Entry) : Bytes :=
  e.headers.flatMap (fun h => lineText h ++ crlf) ++ (crlf ++ e.content)

/-- A body from the line end and boundary on that stand behind a content. -/
def tailText (boundary : Bytes) : List Entry → Bytes
  | [] => crlf ++ (dashed boundary ++ ([0x2D, 0x2D] ++ crlf))
  | e :: entries =>
    crlf ++ (dashed boundary ++ (crlf ++ (partText e ++ tailText boundary entries)))

/-- A body in parts: the same, without the line end in front. -/
def bodyText (boundary : Bytes) (entries : List Entry) : Bytes :=
  (tailText boundary entries).drop crlf.length

/-! ## Lines -/

variable {boundary line rest : Bytes}

theorem takeLine_crlf (hline : (10 : UInt8) ∉ line) (rest : Bytes) :
    takeLine (line ++ (crlf ++ rest)) = (line, rest) := by
  have hall : ∀ b ∈ line ++ [13], (b != 10) = true := by
    apply Read.bne_of_not_mem
    simp [hline]
  have htake : (line ++ (crlf ++ rest)).takeWhile (· != 10) = line ++ [13] := by
    have hstop := Read.takeWhile_append_stop (s := 10 :: rest) hall rfl
    rwa [List.append_assoc] at hstop
  have hdrop : (line ++ (crlf ++ rest)).drop (line ++ [13]).length = 10 :: rest := by
    have hsplit : line ++ (crlf ++ rest) = (line ++ [13]) ++ 10 :: rest := by simp [crlf]
    rw [hsplit, List.drop_left]
  simp only [takeLine, htake, hdrop, List.getLast?_concat, beq_self_eq_true, if_true,
    List.dropLast_concat]

theorem unfold_of_head (hrest : rest.head?.any isGap = false) (fuel : Nat) (line : Bytes) :
    unfold fuel line rest = (line, rest) := by
  cases fuel with
  | zero => rfl
  | succ fuel =>
    rw [unfold, hrest]
    rfl

/-- A name that a header field can have. -/
structure IsFieldName (name : Bytes) : Prop where
  ne_nil : name ≠ []
  bytes : ∀ b ∈ name, isNameByte b = true ∧ isGap b = false ∧ b ≠ 0x3A ∧ b ≠ 10

instance (name : Bytes) : Decidable (IsFieldName name) :=
  haveI : Decidable (∀ b ∈ name, isNameByte b = true ∧ isGap b = false ∧ b ≠ 0x3A ∧ b ≠ 10) :=
    List.decidableBAll _ name
  decidable_of_iff (name ≠ [] ∧ ∀ b ∈ name, isNameByte b = true ∧ isGap b = false ∧ b ≠ 0x3A ∧
    b ≠ 10) ⟨fun h => ⟨h.1, h.2⟩, fun h => ⟨h.1, h.2⟩⟩

variable {name v : Bytes}

theorem IsValue.isValueByte (hv : IsValue v) : ∀ b ∈ v, isValueByte b = true := by
  intro b hb
  obtain ⟨hlow, hdelete⟩ := hv.bytes b hb
  simp [Multipart.isValueByte, hlow, hdelete]

theorem IsValue.newline_not_mem (hv : IsValue v) : (10 : UInt8) ∉ v :=
  fun h => absurd (hv.bytes 10 h).1 (by decide)

theorem trimGaps_lineText (hname : IsFieldName name) (hv : IsValue v) :
    trimGaps (lineText (name, v)) = lineText (name, v) := by
  have hhead : (lineText (name, v)).head?.any isGap = false := by
    cases name with
    | nil => exact absurd rfl hname.ne_nil
    | cons b name => exact (hname.bytes b List.mem_cons_self).2.1
  have hlast : (lineText (name, v)).getLast?.any isGap = false := by
    have hsplit : lineText (name, v) = (name ++ [0x3A, 0x20]) ++ v := by simp [lineText]
    rw [hsplit, List.getLast?_append_of_ne_nil _ hv.ne_nil]
    exact hv.last
  have hdrop := Read.dropWhile_append_stop (p := isGap) (w := []) (s := lineText (name, v))
    (fun _ h => absurd h List.not_mem_nil) hhead
  rw [List.nil_append] at hdrop
  rw [trimGaps, hdrop, dropWhileEnd_of_last hlast]

theorem header?_lineText (hname : IsFieldName name) (hv : IsValue v) :
    header? (lineText (name, v)) = some (name, v) := by
  have hcut : Bytes.cut? 0x3A (lineText (name, v)) = some (name, 0x20 :: v) :=
    Read.cut?_append (fun h => (hname.bytes 0x3A h).2.2.1 rfl) (0x20 :: v)
  have hgap : (0x20 :: v).dropWhile isGap = v :=
    Read.dropWhile_append_stop (w := [0x20]) (List.forall_mem_singleton.mpr rfl) hv.head
  have hbytes : name.all isNameByte = true :=
    List.all_eq_true.mpr fun b hb => (hname.bytes b hb).1
  have hvalue : (0x20 :: v).all isValueByte = true := by
    rw [List.all_cons, List.all_eq_true.mpr hv.isValueByte]
    rfl
  have hne : name.isEmpty = false := by simpa using hname.ne_nil
  simp only [header?, hcut, hne, hbytes, hvalue, hgap, Bool.not_false, Bool.and_self, if_true]

theorem headers_lineText (hname : IsFieldName name) (hv : IsValue v)
    (hrest : rest.head?.any isGap = false) (fuel : Nat) :
    Multipart.headers (fuel + 1) (lineText (name, v) ++ (crlf ++ rest)) =
      (Multipart.headers fuel rest).map (Option.map fun (hs, rest) => ((name, v) :: hs, rest)) := by
  have hnewline : (10 : UInt8) ∉ lineText (name, v) := by
    simp only [lineText, List.mem_append, List.mem_cons, not_or]
    exact ⟨fun h => (hname.bytes 10 h).2.2.2 rfl, by decide, by decide, hv.newline_not_mem⟩
  have hcolon : List.elem 0x3A (lineText (name, v)) = true := by simp [lineText]
  have hempty : (lineText (name, v)).isEmpty = false := by simp [lineText]
  have hempty' : (lineText (name, v) ++ (crlf ++ rest)).isEmpty = false := by simp [lineText]
  rw [Multipart.headers]
  simp only [hempty', takeLine_crlf hnewline, hempty, hcolon, Bool.not_true, Bool.false_eq_true,
    if_false, trimGaps_lineText hname hv, unfold_of_head hrest, header?_lineText hname hv]

theorem headers_end (fuel : Nat) (rest : Bytes) :
    Multipart.headers (fuel + 1) (crlf ++ rest) = .ok (some ([], rest)) := by
  have hline : takeLine (crlf ++ rest) = ([], rest) := takeLine_crlf List.not_mem_nil rest
  rw [Multipart.headers, hline]
  rfl

/-- The header lines of a part, up to the empty line. -/
theorem headers_text {hs : List (Bytes × Bytes)} (h : ∀ x ∈ hs, IsFieldName x.1 ∧ IsValue x.2)
    {fuel : Nat} (hfuel : hs.length < fuel) (rest : Bytes) :
    Multipart.headers fuel (hs.flatMap (fun h => lineText h ++ crlf) ++ (crlf ++ rest)) =
      .ok (some (hs, rest)) := by
  induction hs generalizing fuel with
  | nil =>
    obtain ⟨fuel, rfl⟩ : ∃ n, fuel = n + 1 := ⟨fuel - 1, by simp at hfuel; omega⟩
    exact headers_end fuel rest
  | cons x hs ih =>
    obtain ⟨⟨hname, hv⟩, hmore⟩ := List.forall_mem_cons.mp h
    rw [List.length_cons] at hfuel
    obtain ⟨fuel, rfl⟩ : ∃ n, fuel = n + 1 := ⟨fuel - 1, by omega⟩
    -- the next line begins with a name, or is the empty one
    have hhead : (hs.flatMap (fun h => lineText h ++ crlf) ++ (crlf ++ rest)).head?.any isGap =
        false := by
      cases hs with
      | nil => rfl
      | cons y hs =>
        obtain ⟨name, w⟩ := y
        have hnext : IsFieldName name := (hmore _ List.mem_cons_self).1
        cases name with
        | nil => exact absurd rfl hnext.ne_nil
        | cons b name => exact (hnext.bytes b List.mem_cons_self).2.1
    rw [List.flatMap_cons, List.append_assoc, List.append_assoc,
      headers_lineText hname hv hhead, ih hmore (by omega)]
    rfl

/-! ## Boundaries -/

variable {after content : Bytes}

theorem IsBoundary.not_mem (hb : IsBoundary boundary) {c : UInt8} (hc : isBoundaryByte c = false) :
    c ∉ dashed boundary ∨ c = 0x2D := by
  by_cases hdash : c = 0x2D
  · exact .inr hdash
  · refine .inl fun h => ?_
    simp only [dashed, List.mem_cons, hdash, false_or] at h
    rw [hb.bytes c h] at hc
    cases hc

/-- No line ends inside a boundary. -/
theorem IsBoundary.no_line_end (hb : IsBoundary boundary) :
    (10 : UInt8) ∉ dashed boundary ∧ (13 : UInt8) ∉ dashed boundary := by
  constructor
  · exact (hb.not_mem (by decide +kernel)).resolve_right (by decide)
  · exact (hb.not_mem (by decide +kernel)).resolve_right (by decide)

theorem isPrefixOf?_append (u s : Bytes) : u.isPrefixOf? (u ++ s) = some s :=
  List.isPrefixOf?_eq_some_iff_append_eq.mpr rfl

theorem isPrefixOf?_eq_none {u s : Bytes} (h : ¬ u <+: s) : u.isPrefixOf? s = none := by
  rw [Option.eq_none_iff_forall_ne_some]
  intro t ht
  exact h ⟨t, List.isPrefixOf?_eq_some_iff_append_eq.mp ht⟩

/-- A line end on its own is no boundary line. -/
theorem not_dashed_prefix_crlf (boundary : Bytes) : ¬ dashed boundary <+: crlf := by
  intro h
  obtain ⟨t, ht⟩ := h
  exact absurd (List.cons.inj ht).1 (by decide)

theorem boundaryLine_dashed (hb : IsBoundary boundary) (ending : Bytes) (hlength : ending.length ≤ 2)
    (hending : (10 : UInt8) ∉ ending) (rest : Bytes) :
    boundaryLine true crlf boundary (dashed boundary ++ (ending ++ (crlf ++ rest))) =
      .ok (some (dashed boundary ++ (ending ++ crlf), rest)) := by
  have hall : ∀ b ∈ dashed boundary ++ (ending ++ [13]), (b != 10) = true := by
    apply Read.bne_of_not_mem
    simp only [List.mem_append, not_or]
    exact ⟨hb.no_line_end.1, hending, by decide⟩
  have hsplit : dashed boundary ++ (ending ++ (crlf ++ rest)) =
      (dashed boundary ++ (ending ++ [13])) ++ 10 :: rest := by
    simp [crlf]
  have htake : (dashed boundary ++ (ending ++ (crlf ++ rest))).takeWhile (· != 10) =
      dashed boundary ++ (ending ++ [13]) := by
    rw [hsplit]
    exact Read.takeWhile_append_stop hall rfl
  have hdrop : (dashed boundary ++ (ending ++ (crlf ++ rest))).drop
      (dashed boundary ++ (ending ++ [13])).length = 10 :: rest := by
    rw [hsplit, List.drop_left]
  have hshort : ¬ maxLine < (dashed boundary ++ (ending ++ [13])).length := by
    have hlimit := hb.short
    simp only [dashed, maxLine, List.length_append, List.length_cons, List.length_nil]
    omega
  simp only [boundaryLine, htake, hdrop, hshort, if_false]
  simp [crlf]

theorem isDelimiter_dashed (boundary : Bytes) :
    isDelimiter crlf boundary (dashed boundary ++ crlf) = true := by
  rw [isDelimiter, afterMark?, isPrefixOf?_append]
  rfl

theorem isFinal_dashed (boundary : Bytes) :
    isDelimiter crlf boundary (dashed boundary ++ ([0x2D, 0x2D] ++ crlf)) = false ∧
      isFinal crlf boundary (dashed boundary ++ ([0x2D, 0x2D] ++ crlf)) = true := by
  constructor
  · rw [isDelimiter, afterMark?, isPrefixOf?_append]
    rfl
  · rw [isFinal, afterMark?, ← List.append_assoc, isPrefixOf?_append]
    rfl

/-- The first line of a body announces the first part. -/
theorem afterPreamble_dashed (hb : IsBoundary boundary) (fuel : Nat) (rest : Bytes) :
    afterPreamble true boundary (fuel + 1) (dashed boundary ++ (crlf ++ rest)) =
      .ok (some (crlf, rest)) := by
  have hline := boundaryLine_dashed hb [] (by decide) (by decide) rest
  rw [List.nil_append, List.nil_append] at hline
  rw [afterPreamble, hline]
  simp only [isDelimiter_dashed, if_true]

/-- Behind a content, the line end comes first and the boundary line after it. -/
theorem afterPart_crlf (boundary rest : Bytes) {line more : Bytes}
    (hline : boundaryLine true crlf boundary rest = .ok (some (line, more))) :
    afterPart true crlf boundary (crlf ++ rest) =
      if isDelimiter crlf boundary line then .ok (some more)
      else if isFinal crlf boundary line then .ok none
      else .error .malformed := by
  have hempty : boundaryLine true crlf boundary (crlf ++ rest) = .ok (some (crlf, rest)) := rfl
  have hdelimiter : isDelimiter crlf boundary crlf = false := by
    rw [isDelimiter, afterMark?, isPrefixOf?_eq_none (not_dashed_prefix_crlf boundary)]
    rfl
  have hfinal : isFinal crlf boundary crlf = false := by
    have hnot : ¬ dashed boundary ++ [0x2D, 0x2D] <+: crlf :=
      fun h => not_dashed_prefix_crlf boundary ((List.prefix_append _ _).trans h)
    rw [isFinal, afterMark?, isPrefixOf?_eq_none hnot]
    rfl
  simp only [afterPart, hempty, hdelimiter, hfinal, Bool.false_eq_true, if_false, bne_self_eq_false,
    hline]

theorem afterPart_more (hb : IsBoundary boundary) (rest : Bytes) :
    afterPart true crlf boundary (crlf ++ (dashed boundary ++ (crlf ++ rest))) =
      .ok (some rest) := by
  have hline := boundaryLine_dashed hb [] (by decide) (by decide) rest
  rw [List.nil_append, List.nil_append] at hline
  rw [afterPart_crlf boundary _ hline, isDelimiter_dashed, if_pos rfl]

theorem afterPart_last (hb : IsBoundary boundary) :
    afterPart true crlf boundary (crlf ++ (dashed boundary ++ ([0x2D, 0x2D] ++ crlf))) =
      .ok none := by
  have hline := boundaryLine_dashed hb [0x2D, 0x2D] (by decide) (by decide) []
  rw [List.append_nil] at hline
  obtain ⟨hdelimiter, hfinal⟩ := isFinal_dashed boundary
  rw [afterPart_crlf boundary _ hline, hdelimiter, hfinal]
  rfl

/-! ## Contents -/

/-- A content is read up to the first mark, which is the one behind it. -/
theorem contentUpTo_append {m : Bytes} (hm : (13 : UInt8) ∉ m) (hcontent : ¬ m <:+: content)
    (hafter : endsMark after = true) :
    contentUpTo (13 :: m) (content ++ (13 :: m ++ after)) = some (content, 13 :: m ++ after) := by
  induction content with
  | nil =>
    rw [List.nil_append, List.cons_append, contentUpTo, ← List.cons_append, isPrefixOf?_append]
    simp [hafter]
  | cons b content ih =>
    have hmore : ¬ m <:+: content := fun h => hcontent (h.trans (List.suffix_cons b content).isInfix)
    have hnot : ¬ 13 :: m <+: b :: (content ++ (13 :: m ++ after)) := by
      intro h
      have hprefix : m <+: content ++ 13 :: (m ++ after) := (List.cons_prefix_cons.mp h).2
      -- a carriage return behind the content is no part of the mark
      exact hmore (prefix_of_prefix_append hm hprefix).isInfix
    rw [List.cons_append, contentUpTo, isPrefixOf?_eq_none hnot, ih hmore]
    rfl

theorem content?_append (hb : IsBoundary boundary) (hcontent : ¬ boundary <:+: content)
    (hafter : endsMark after = true) :
    content? crlf boundary (content ++ (crlf ++ (dashed boundary ++ after))) =
      some (content, crlf ++ (dashed boundary ++ after)) := by
  have hreturn := hb.no_line_end.2
  have hdashed : ¬ dashed boundary <:+: content := by
    intro h
    have hinside : boundary <:+: dashed boundary := ⟨[0x2D, 0x2D], [], by simp [dashed]⟩
    exact hcontent (hinside.trans h)
  have hmark : ¬ 10 :: dashed boundary <:+: content :=
    fun h => hdashed ((List.suffix_cons 10 _).isInfix.trans h)
  have hfirst : ¬ dashed boundary <+: content ++ (crlf ++ (dashed boundary ++ after)) :=
    fun h => hdashed (prefix_of_prefix_append hreturn h).isInfix
  have hread := contentUpTo_append (m := 10 :: dashed boundary) (by simp [hreturn]) hmark hafter
  rw [content?, isPrefixOf?_eq_none hfirst]
  exact hread

/-! ## Parts -/

theorem isFieldName_names :
    IsFieldName (Bytes.ofString "Content-Disposition") ∧
      IsFieldName (Bytes.ofString "Content-Type") := by
  decide +kernel

namespace Entry

variable {e : Entry}

theorem IsWritable.params_quotable (h : e.IsWritable) : ∀ p ∈ e.params, IsQuotable p.2 := by
  intro p hp
  rcases List.mem_cons.mp hp with rfl | hp
  · exact h.name
  · obtain ⟨f, hf, rfl⟩ := Option.map_eq_some_iff.mp (Option.mem_toList.mp hp)
    exact (h.filename f hf).2

/-- The names of the parameters. -/
theorem isKey_of_mem_params {p : Bytes × Bytes} (hp : p ∈ e.params) : MediaType.IsKey p.1 := by
  have hkeys : MediaType.IsKey (Bytes.ofString "name") ∧
      MediaType.IsKey (Bytes.ofString "filename") := by
    decide +kernel
  rcases List.mem_cons.mp hp with rfl | hp
  · exact hkeys.1
  · obtain ⟨f, -, rfl⟩ := Option.map_eq_some_iff.mp (Option.mem_toList.mp hp)
    exact hkeys.2

theorem nodup_params (e : Entry) : (e.params.map Prod.fst).Nodup := by
  have hne : Bytes.ofString "name" ≠ Bytes.ofString "filename" := by decide +kernel
  obtain ⟨name, filename, type, content⟩ := e
  cases filename <;> simp [params, hne]

theorem paramsText_params {ps : List (Bytes × Bytes)} (hkeys : ∀ p ∈ ps, MediaType.IsKey p.1)
    (hvalues : ∀ p ∈ ps, IsQuotable p.2) : MediaType.ParamsText ps (ps.flatMap paramText) := by
  induction ps with
  | nil => exact .nil
  | cons p ps ih =>
    obtain ⟨hkey, hkeys⟩ := List.forall_mem_cons.mp hkeys
    obtain ⟨hvalue, hvalues⟩ := List.forall_mem_cons.mp hvalues
    have hquoted : MediaType.ValueText p.2 (0x22 :: (p.2 ++ [0x22])) := by
      apply MediaType.ValueText.quoted
      intro b hb hmem
      obtain ⟨hlow, -, hquote, hslash⟩ := hvalue b hb
      simp only [List.mem_cons, List.not_mem_nil, or_false] at hmem
      rcases hmem with rfl | rfl | rfl | rfl
      · exact hquote rfl
      · exact hslash rfl
      · exact absurd hlow (by decide)
      · exact absurd hlow (by decide)
    have htext := MediaType.ParamsText.cons 1 hkey hquoted (ih hkeys hvalues)
    simpa [paramText] using htext

/-- The disposition is read as it was written. -/
theorem IsWritable.parse?_disposition (h : e.IsWritable) :
    MediaType.parse? e.disposition = some ⟨Bytes.ofString "form-data", e.params⟩ := by
  apply MediaType.parse?_text (by decide +kernel) _ e.nodup_params
  exact paramsText_params (fun _ hp => isKey_of_mem_params hp) h.params_quotable

/-- A parameter ends with a quote. -/
theorem getLast?_flatMap_paramText {ps : List (Bytes × Bytes)} (hne : ps ≠ []) :
    (ps.flatMap paramText).getLast? = some 0x22 := by
  obtain ⟨init, p, rfl⟩ := (List.eq_nil_or_concat' ps).resolve_left hne
  have hsplit : paramText p = (0x3B :: 0x20 :: (p.1 ++ 0x3D :: 0x22 :: p.2)) ++ [0x22] := by
    simp [paramText]
  rw [List.flatMap_append, List.flatMap_singleton, hsplit, ← List.append_assoc,
    List.getLast?_concat]

theorem IsWritable.isValue_disposition (h : e.IsWritable) : IsValue e.disposition := by
  have hparams : e.params ≠ [] := List.cons_ne_nil _ _
  have hfront : Bytes.ofString "form-data" ≠ [] := by decide +kernel
  have hrest : e.params.flatMap paramText ≠ [] := by
    intro hnil
    have hlast := getLast?_flatMap_paramText hparams
    rw [hnil] at hlast
    cases hlast
  refine ⟨?_, ?_, ?_, ?_⟩
  · exact List.append_ne_nil_of_left_ne_nil hfront _
  · intro b hb
    rcases List.mem_append.mp hb with hb | hb
    · have hliteral : IsQuotable (Bytes.ofString "form-data") := by decide +kernel
      exact ⟨(hliteral b hb).1, (hliteral b hb).2.1⟩
    · obtain ⟨p, hp, hb⟩ := List.mem_flatMap.mp hb
      have hkey : ∀ b ∈ p.1, (0x20 : UInt8) ≤ b ∧ b ≠ 0x7F := by
        intro b hb
        obtain ⟨hlow, hhigh, -⟩ := MediaType.isWordByte_iff.mp ((isKey_of_mem_params hp).bytes b hb)
        exact ⟨UInt8.le_of_lt hlow, UInt8.ne_of_lt hhigh⟩
      have hvalue : ∀ b ∈ p.2, (0x20 : UInt8) ≤ b ∧ b ≠ 0x7F := by
        intro b hb
        obtain ⟨hlow, hdelete, -, -⟩ := h.params_quotable p hp b hb
        exact ⟨hlow, hdelete⟩
      simp only [paramText, List.mem_cons, List.mem_append, List.not_mem_nil, or_false] at hb
      rcases hb with rfl | rfl | hb | rfl | rfl | hb | rfl
      · decide
      · decide
      · exact hkey b hb
      · decide
      · decide
      · exact hvalue b hb
      · decide
  · rw [disposition, List.head?_append_of_ne_nil _ hfront]
    decide +kernel
  · rw [disposition, List.getLast?_append_of_ne_nil _ hrest, getLast?_flatMap_paramText hparams]
    rfl

theorem IsWritable.headers_fit (h : e.IsWritable) :
    ∀ x ∈ e.headers, IsFieldName x.1 ∧ IsValue x.2 := by
  intro x hx
  rcases List.mem_cons.mp hx with rfl | hx
  · exact ⟨isFieldName_names.1, h.isValue_disposition⟩
  · obtain ⟨t, ht, rfl⟩ := Option.map_eq_some_iff.mp (Option.mem_toList.mp hx)
    exact ⟨isFieldName_names.2, h.type t ht⟩

/-! ### What a part is for -/

theorem formData?_part (h : e.IsWritable) :
    e.part.formData? = some ⟨Bytes.ofString "form-data", e.params⟩ := by
  have hheader : e.part.header? "Content-Disposition" = some e.disposition := by
    simp [Part.header?, part, headers]
  simp [Part.formData?, hheader, h.parse?_disposition]

theorem formName_part (h : e.IsWritable) : e.part.formName = e.name := by
  rw [Part.formName, formData?_part h, Option.bind_some,
    MediaType.param_eq_given fun p hp => (isKey_of_mem_params hp).no_star]
  simp [MediaType.given?, params]

theorem fileName_part (h : e.IsWritable) : e.part.fileName = e.filename.getD [] := by
  have hne : Bytes.ofString "name" ≠ Bytes.ofString "filename" := by decide +kernel
  rw [Part.fileName, formData?_part h, Option.bind_some,
    MediaType.param_eq_given fun p hp => (isKey_of_mem_params hp).no_star]
  cases hfile : e.filename <;> simp [MediaType.given?, params, hne, hfile]

/-- No part that is written here has a transfer encoding. -/
theorem decoded?_part (e : Entry) : e.part.decoded? true = some e.part := by
  have hnames : ∀ x ∈ e.headers, (x.1.map lowerByte ==
      (Bytes.ofString "Content-Transfer-Encoding").map lowerByte) = false := by
    have hliteral : ∀ n ∈ ["Content-Disposition", "Content-Type"], ((Bytes.ofString n).map lowerByte ==
        (Bytes.ofString "Content-Transfer-Encoding").map lowerByte) = false := by
      decide +kernel
    intro x hx
    rcases List.mem_cons.mp hx with rfl | hx
    · exact hliteral _ List.mem_cons_self
    · obtain ⟨t, -, rfl⟩ := Option.map_eq_some_iff.mp (Option.mem_toList.mp hx)
      exact hliteral _ (List.mem_cons_of_mem _ List.mem_cons_self)
  have hnone : e.part.header? "Content-Transfer-Encoding" = none := by
    rw [Part.header?, Option.map_eq_none_iff, List.find?_eq_none]
    intro x hx
    rw [hnames x hx]
    decide
  have hempty : ([].map lowerByte == Bytes.ofString "quoted-printable") = false := by decide +kernel
  simp only [Part.decoded?, hnone, Option.getD_none, hempty, Bool.false_and, Bool.false_eq_true,
    if_false]

end Entry

/-! ## Bodies -/

/-- An entry that can be sent with a boundary. -/
structure Entry.Fits (e : Entry) (boundary : Bytes) : Prop extends e.IsWritable where
  content : ¬ boundary <:+: e.content

variable {entries : List Entry}

/-- What follows a content shows at once that it is a boundary line. -/
theorem exists_tailText (boundary : Bytes) (entries : List Entry) :
    ∃ after, endsMark after = true ∧
      tailText boundary entries = crlf ++ (dashed boundary ++ after) := by
  cases entries with
  | nil => exact ⟨_, rfl, rfl⟩
  | cons e entries => exact ⟨_, rfl, rfl⟩

theorem headers_partText {e : Entry} (he : e.IsWritable) (tail : Bytes) :
    Multipart.headers ((partText e ++ tail).length + 1) (partText e ++ tail) =
      .ok (some (e.headers, e.content ++ tail)) := by
  have hcount : e.headers.length ≤ 2 := by
    rw [Entry.headers, List.length_cons]
    cases e.type <;> simp
  have hfuel : e.headers.length < (partText e ++ tail).length + 1 := by
    simp only [partText, crlf, List.length_append, List.length_cons]
    omega
  have hsplit : partText e ++ tail =
      e.headers.flatMap (fun h => lineText h ++ crlf) ++ (crlf ++ (e.content ++ tail)) := by
    simp [partText]
  rw [hsplit] at hfuel ⊢
  exact headers_text he.headers_fit hfuel _

theorem head?_partText (e : Entry) (tail : Bytes) :
    (partText e ++ tail).head?.any isGap = false := by
  have hne : Bytes.ofString "Content-Disposition" ≠ [] := by decide +kernel
  simp only [partText, Entry.headers, List.flatMap_cons, lineText, List.append_assoc]
  rw [List.head?_append_of_ne_nil _ hne]
  decide +kernel

/-- One part, and what follows the content. -/
theorem partsFrom_partText (hb : IsBoundary boundary) {e : Entry} (he : e.Fits boundary)
    (entries : List Entry) (room : Nat) :
    partsFrom true crlf boundary (room + 1) (partText e ++ tailText boundary entries) =
      match afterPart true crlf boundary (tailText boundary entries) with
      | .error fault => .error fault
      | .ok none => .ok [e.part]
      | .ok (some s) => (partsFrom true crlf boundary room s).map (e.part :: ·) := by
  have hcontent : content? crlf boundary (e.content ++ tailText boundary entries) =
      some (e.content, tailText boundary entries) := by
    obtain ⟨after, hafter, htail⟩ := exists_tailText boundary entries
    rw [htail]
    exact content?_append hb he.content hafter
  have hdecoded : Part.decoded? true ⟨e.headers, e.content⟩ = some e.part := e.decoded?_part
  rw [partsFrom, head?_partText, headers_partText he.toIsWritable]
  cases hafter : afterPart true crlf boundary (tailText boundary entries) with
  | error fault => simp [hcontent, hdecoded, hafter]
  | ok next => cases next <;> simp [hcontent, hdecoded, hafter]

/-- The parts from one on. -/
theorem partsFrom_tailText (hb : IsBoundary boundary) {e : Entry} (he : e.Fits boundary)
    (hmore : ∀ e ∈ entries, e.Fits boundary) {room : Nat} (hroom : entries.length < room) :
    partsFrom true crlf boundary room (partText e ++ tailText boundary entries) =
      .ok (e.part :: entries.map Entry.part) := by
  induction entries generalizing e room with
  | nil =>
    obtain ⟨room, rfl⟩ : ∃ n, room = n + 1 := ⟨room - 1, by simp at hroom; omega⟩
    rw [partsFrom_partText hb he, tailText, afterPart_last hb]
    rfl
  | cons next entries ih =>
    obtain ⟨hnext, hmore⟩ := List.forall_mem_cons.mp hmore
    rw [List.length_cons] at hroom
    obtain ⟨room, rfl⟩ : ∃ n, room = n + 1 := ⟨room - 1, by omega⟩
    rw [partsFrom_partText hb he, tailText, afterPart_more hb]
    simp only
    rw [ih hnext hmore (by omega)]
    rfl

/-- **A form in parts is read as it was written.** -/
theorem parts_bodyText (hb : IsBoundary boundary) {e : Entry}
    (h : ∀ x ∈ e :: entries, x.Fits boundary) (hroom : entries.length < maxParts) :
    parts true boundary (bodyText boundary (e :: entries)) =
      .ok (e.part :: entries.map Entry.part) := by
  obtain ⟨he, hmore⟩ := List.forall_mem_cons.mp h
  have hne : boundary.isEmpty = false := by simpa using hb.ne_nil
  have hbody : bodyText boundary (e :: entries) =
      dashed boundary ++ (crlf ++ (partText e ++ tailText boundary entries)) := rfl
  have hparts := partsFrom_tailText hb he hmore hroom
  rw [parts, hne, hbody, afterPreamble_dashed hb]
  simpa only [Bool.false_eq_true, if_false] using hparts

end ClassOutline.Http.Multipart
