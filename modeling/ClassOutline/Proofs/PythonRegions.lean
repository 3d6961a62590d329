import ClassOutline.Proofs.EdgeInvariant
import ClassOutline.Proofs.PythonForms

/-!
# Which class a line of Python belongs to

The body of a class is searched as a text of its own, so the search for members starts anew behind
every header, where a start of the text is taken for the start of a line. This module shows that no
place of the source is counted twice for all that, whatever the source is: headers and bodies follow
each other without overlap, and in the source itself every member begins a line.

Members are placed in the source by the offset of the word that follows the indentation
(`placedMembers`). Within a body these offsets increase because occurrences do not overlap, and from
body to body because bodies do not (`placedMembers_pairwise`). A function has a line start before
its word and a method has indentation there, so the two are never the same place.

## Main results

- `bodyStop_le_start`: the body of a class ends before the next header begins
- `not_opensClass_in_body`: no class statement begins inside a body
- `exists_member`: a member of a body, seen in the source
- `regions_of_code`: no place of the source is attributed twice
-/

namespace ClassOutline.Python

/-! ## Headers and bodies -/

/-- The offset behind the body of a class. -/
def bodyStop (h : Occurrence (Bytes × Bytes)) : Nat := h.stop + (body h.rest).length

variable {code : Bytes} {h : Occurrence (Bytes × Bytes)}

theorem header_inText (hh : h ∈ classHeader.occurrences code) : h.InText classHeader code :=
  Form.inText_of_mem_occurrences hh

theorem drop_header_stop (hh : h ∈ classHeader.occurrences code) : code.drop h.stop = h.rest :=
  (header_inText hh).drop_stop classHeader_consumes

/-- Behind a header stand its body and what follows that, and no class begins in the body. -/
theorem rest_eq_body (hh : h ∈ classHeader.occurrences code) :
    h.rest = body h.rest ++ code.drop (bodyStop h) ∧
      classStart.Silent none (body h.rest) (code.drop (bodyStop h)) := by
  obtain ⟨tail, hrest, hsilent⟩ := body_split h.rest
  have htail : code.drop (bodyStop h) = tail := by
    have hleft : (body h.rest ++ tail).drop (body h.rest).length = tail := List.drop_left
    rw [← hrest] at hleft
    rw [bodyStop, ← List.drop_drop, drop_header_stop hh, hleft]
  rw [htail]
  exact ⟨hrest, hsilent⟩

theorem bodyStop_le_length (hh : h ∈ classHeader.occurrences code) :
    bodyStop h ≤ code.length := by
  have hstop := (header_inText hh).stop_le classHeader_consumes
  have hdrop := congrArg List.length (drop_header_stop hh)
  have hrest := congrArg List.length (rest_eq_body hh).1
  rw [List.length_drop] at hdrop
  rw [List.length_append] at hrest
  simp only [bodyStop] at hrest ⊢
  omega

theorem slice_body (hh : h ∈ classHeader.occurrences code) :
    code.slice h.stop (bodyStop h) = body h.rest := by
  have hleft : (body h.rest ++ code.drop (bodyStop h)).take (body h.rest).length = body h.rest :=
    List.take_left
  rw [← (rest_eq_body hh).1] at hleft
  rw [Bytes.slice, drop_header_stop hh, bodyStop, Nat.add_sub_cancel_left, hleft]

/-- A place in a body, seen in the source. -/
theorem take_in_body (hh : h ∈ classHeader.occurrences code) {k : Nat}
    (hk : k ≤ (body h.rest).length) :
    code.take (h.stop + k) = code.take h.stop ++ (body h.rest).take k := by
  have hprefix : (body h.rest ++ code.drop (bodyStop h)).take k = (body h.rest).take k :=
    List.take_append_of_le_length hk
  rw [← (rest_eq_body hh).1] at hprefix
  rw [List.take_add, drop_header_stop hh, hprefix]

theorem drop_in_body (hh : h ∈ classHeader.occurrences code) {k : Nat}
    (hk : k ≤ (body h.rest).length) :
    code.drop (h.stop + k) = (body h.rest).drop k ++ code.drop (bodyStop h) := by
  have hsuffix : (body h.rest ++ code.drop (bodyStop h)).drop k =
      (body h.rest).drop k ++ code.drop (bodyStop h) := List.drop_append_of_le_length hk
  rw [← (rest_eq_body hh).1] at hsuffix
  rw [← List.drop_drop, drop_header_stop hh, hsuffix]

/-- No class statement begins inside the body of a class. -/
theorem not_opensClass_in_body (hh : h ∈ classHeader.occurrences code) {p : Nat}
    (hlow : h.stop ≤ p) (hhigh : p < bodyStop h)
    (hline : Read.lineStart (Bytes.lastAfter none (code.take p)) = true) :
    ¬ OpensClass (code.drop p) := by
  obtain ⟨k, rfl⟩ : ∃ k, p = h.stop + k := ⟨p - h.stop, by omega⟩
  have hk : k < (body h.rest).length := by
    simp only [bodyStop] at hhigh
    omega
  intro hopens
  -- the body is searched from its own start, where a line seems to begin in any case
  rw [take_in_body hh (Nat.le_of_lt hk), Bytes.lastAfter_append] at hline
  obtain ⟨r, hread⟩ := hopens.read_behind hline
  have hsilent := (rest_eq_body hh).2
  rw [← List.take_append_drop k (body h.rest)] at hsilent
  have hne : (body h.rest).drop k ≠ [] := by
    rw [Ne, List.drop_eq_nil_iff]
    omega
  rw [drop_in_body hh (Nat.le_of_lt hk), hsilent.at hne] at hread
  cases hread

/-- The body of a class ends before the next header begins. -/
theorem bodyStop_le_start {a b : Occurrence (Bytes × Bytes)}
    (ha : a ∈ classHeader.occurrences code) (hb : b ∈ classHeader.occurrences code)
    (hle : a.stop ≤ b.start) : bodyStop a ≤ b.start := by
  have hb' := header_inText hb
  have hread := classHeader_eq_some hb'.read
  -- the next header is a class statement, so it cannot begin in the body
  by_contra hlt
  apply not_opensClass_in_body ha hle (by omega) hread.lineStart
  rw [hb'.here_eq]
  exact hread.opens

/-- A header ends its line. -/
theorem header_ends_line (hh : h ∈ classHeader.occurrences code) :
    (code.drop h.stop).head?.all (· == newline) = true := by
  rw [drop_header_stop hh]
  exact (classHeader_eq_some (header_inText hh).read).ends_line

/-! ## Members -/

/-- The width of the indentation at the front of a text. -/
def indentWidth (s : Bytes) : Nat := (s.takeWhile isIndent).length

/-- The offset in the source of the word that follows the indentation of a member. -/
def memberOffset {α : Type} (h : Occurrence (Bytes × Bytes)) (m : Occurrence α) : Nat :=
  h.stop + m.start + indentWidth m.here

/-- What is found in the bodies of all classes, each with its offset in the source. -/
def placedMembers {α : Type} (form : Form α) (code : Bytes) : List (Nat × α) :=
  (classHeader.occurrences code).flatMap fun h =>
    (form.occurrences (body h.rest)).map fun m => (memberOffset h m, m.value)

/-- In the source, the keyword at an offset stands behind the indentation of its line. -/
def IndentedAt (code keyword : Bytes) (p : Nat) : Prop :=
  ∃ before indent after, code = before ++ (indent ++ (keyword ++ after)) ∧
    p = before.length + indent.length ∧ Read.lineStart (Bytes.lastAfter none before) = true ∧
    indent ≠ [] ∧ ∀ b ∈ indent, isIndent b = true

section Members

variable {α : Type} {form : Form α} {keyword : Bytes} {m : Occurrence α}

theorem indentWidth_member (hform : IndentedBy form keyword) {indent rest : Bytes}
    (hall : ∀ b ∈ indent, isIndent b = true) :
    indentWidth (indent ++ (keyword ++ rest)) = indent.length := by
  rw [indentWidth, Read.takeWhile_append_stop hall (hform.keyword_stop rest)]

/-- The keyword of a member lies between the two ends of the member, and these in the body. -/
theorem memberOffset_bounds (hform : IndentedBy form keyword)
    (hm : m ∈ form.occurrences (body h.rest)) :
    h.stop + m.start ≤ memberOffset h m ∧ memberOffset h m < h.stop + m.stop ∧
      h.stop + m.stop ≤ bodyStop h := by
  have hin := Form.inText_of_mem_occurrences hm
  obtain ⟨-, indent, more, hhere, -, hall⟩ := hform.read _ _ _ _ hin.read
  have hstop := hin.stop_le hform.consumes
  have hwidth : indentWidth m.here = indent.length := by
    rw [hhere, indentWidth_member hform hall]
  have hkeyword := List.length_pos_iff.mpr hform.keyword_ne
  have hlength := congrArg List.length hhere
  simp only [List.length_append] at hlength
  simp only [memberOffset, bodyStop, Occurrence.stop, hwidth] at hstop ⊢
  omega

/-- In the source, a member begins its line. At the start of the body, where the search takes a
newline for granted, there is one. -/
theorem memberOffset_indentedAt (hform : IndentedBy form keyword)
    (hh : h ∈ classHeader.occurrences code) (hm : m ∈ form.occurrences (body h.rest)) :
    IndentedAt code keyword (memberOffset h m) := by
  have hin := Form.inText_of_mem_occurrences hm
  obtain ⟨hline, indent, more, hhere, hne, hall⟩ := hform.read _ _ _ _ hin.read
  have hstart := hin.start_le
  have htake := take_in_body hh hstart
  have hdrop := drop_in_body hh hstart
  rw [hin.here_eq, hhere] at hdrop
  have hlength : (code.take (h.stop + m.start)).length = h.stop + m.start := by
    have hstop := bodyStop_le_length hh
    simp only [bodyStop] at hstop
    rw [List.length_take]
    omega
  refine ⟨code.take (h.stop + m.start), indent, more ++ m.rest ++ code.drop (bodyStop h), ?_, ?_,
    ?_, hne, hall⟩
  · conv_lhs => rw [← List.take_append_drop (h.stop + m.start) code, hdrop]
    simp
  · rw [hlength, memberOffset, hhere, indentWidth_member hform hall]
  · rw [htake, Bytes.lastAfter_append]
    have hbefore : (body h.rest).take m.start ≠ [] := by
      intro hnil
      -- then the body would begin with indentation, but it begins with a newline
      have hbody : body h.rest = m.here := by
        have hsplit := List.take_append_drop m.start (body h.rest)
        rw [hnil, List.nil_append, hin.here_eq] at hsplit
        exact hsplit.symm
      have hends := header_ends_line hh
      rw [drop_header_stop hh, (rest_eq_body hh).1, hbody, hhere] at hends
      cases indent with
      | nil => exact hne rfl
      | cons c indent =>
        have hc : c = newline := by simpa using hends
        have hindent := hall c List.mem_cons_self
        rw [hc] at hindent
        cases hindent
    rw [Bytes.lastAfter_of_ne_nil hbefore _ none]
    exact hline

/-- The places of the members increase, within a class and from class to class. -/
theorem placedMembers_pairwise (hform : IndentedBy form keyword) (code : Bytes) :
    ((placedMembers form code).map Prod.fst).Pairwise (· < ·) := by
  rw [List.pairwise_map, placedMembers, List.pairwise_flatMap]
  constructor
  · intro h _
    rw [List.pairwise_map]
    refine (form.occurrences_pairwise (body h.rest)).imp_of_mem ?_
    intro m n hm hn hle
    have hbound := (memberOffset_bounds hform hm).2.1
    have hbound' := (memberOffset_bounds hform hn).1
    show memberOffset h m < memberOffset h n
    omega
  · refine (classHeader.occurrences_pairwise code).imp_of_mem ?_
    intro a b ha hb hle x hx y hy
    obtain ⟨m, hm, rfl⟩ := List.mem_map.mp hx
    obtain ⟨n, hn, rfl⟩ := List.mem_map.mp hy
    -- the body of the first class ends before the second class begins
    have hbound := memberOffset_bounds hform hm
    have hbound' := (memberOffset_bounds hform hn).1
    have hnext := bodyStop_le_start ha hb hle
    have hheader := (header_inText hb).start_lt_stop classHeader_consumes
    show memberOffset a m < memberOffset b n
    omega

theorem indentedAt_of_mem_placedMembers (hform : IndentedBy form keyword) {x : Nat × α}
    (hx : x ∈ placedMembers form code) : IndentedAt code keyword x.1 := by
  obtain ⟨h, hh, hx⟩ := List.mem_flatMap.mp hx
  obtain ⟨m, hm, rfl⟩ := List.mem_map.mp hx
  exact memberOffset_indentedAt hform hh hm

/-- What is found in the bodies is what the outline lists in its classes. -/
theorem map_snd_placedMembers (form : Form α) (code : Bytes) :
    (placedMembers form code).map Prod.snd =
      (classHeader.occurrences code).flatMap fun h => form.values (body h.rest) := by
  simp only [placedMembers, List.map_flatMap, List.map_map, Form.values]
  rfl

end Members

/-! ## Functions -/

/-- The functions with their offsets in the source. -/
def placedFunctions (code : Bytes) : List (Nat × FunctionInfo) :=
  (function.occurrences code).map fun o => (o.start, o.value)

/-- In the source, the keyword at an offset begins its line. -/
def LedAt (code keyword : Bytes) (p : Nat) : Prop :=
  Read.lineStart (Bytes.lastAfter none (code.take p)) = true ∧ keyword <+: code.drop p

theorem ledAt_of_mem_placedFunctions {x : Nat × FunctionInfo} (hx : x ∈ placedFunctions code) :
    LedAt code (Bytes.ofString "def") x.1 := by
  obtain ⟨o, ho, rfl⟩ := List.mem_map.mp hx
  have hin := Form.inText_of_mem_occurrences ho
  obtain ⟨hline, more, hhere⟩ := function_eq_some hin.read
  refine ⟨hline, ?_⟩
  rw [hin.here_eq, hhere]
  exact List.prefix_append _ _

theorem placedFunctions_pairwise (code : Bytes) :
    ((placedFunctions code).map Prod.fst).Pairwise (· < ·) := by
  rw [List.pairwise_map, placedFunctions, List.pairwise_map]
  refine (function.occurrences_pairwise code).imp_of_mem ?_
  intro a b ha _ hle
  exact Nat.lt_of_lt_of_le
    ((Form.inText_of_mem_occurrences ha).start_lt_stop function_consumes) hle

/-- The same keyword is not both at the start of its line and indented. -/
theorem LedAt.not_indentedAt {keyword keyword' : Bytes} {p : Nat} (hled : LedAt code keyword p) :
    ¬ IndentedAt code keyword' p := by
  rintro ⟨before, indent, after, hcode, rfl, -, hne, hall⟩
  have htake : code.take (before.length + indent.length) = before ++ indent := by
    rw [hcode, ← List.append_assoc, ← List.length_append, List.take_left]
  obtain ⟨b, hb, hlast⟩ := Bytes.lastAfter_mem hne (Bytes.lastAfter none before)
  have hline := hled.1
  rw [htake, Bytes.lastAfter_append, hlast] at hline
  -- the byte before would be a newline and indent the line
  have hnewline : b = 10 := by simpa [Read.lineStart] using hline
  have hindent := hall b hb
  rw [hnewline] at hindent
  cases hindent

/-- Whether a text begins with space: then it is not taken for a function. -/
def hasMargin (s : Bytes) : Bool :=
  s.dropWhile (fun b => b == 0x20 || b == 9 || b == 13 || b == 10) != s

theorem hasMargin_function {o : Occurrence FunctionInfo} (ho : o ∈ function.occurrences code) :
    hasMargin o.taken = false := by
  have hin := Form.inText_of_mem_occurrences ho
  obtain ⟨-, more, hhere⟩ := function_eq_some hin.read
  have htaken : o.taken = Bytes.ofString "def" ++ more := by
    have hsplit := hin.here_eq_append function_consumes
    rw [hhere, ← List.append_assoc] at hsplit
    exact (List.append_cancel_right hsplit).symm
  have hkeep : (Bytes.ofString "def" ++ more).dropWhile
      (fun b => b == 0x20 || b == 9 || b == 13 || b == 10) = Bytes.ofString "def" ++ more := rfl
  rw [htaken, hasMargin, hkeep, bne_self_eq_false]

/-! ## The regions of a text -/

/-- How headers, bodies, members and functions lie in a source text. -/
structure Regions (code : Bytes) : Prop where
  /-- A header, the body behind it, and the next header follow each other. -/
  bodies_in_text : ∀ h ∈ classHeader.occurrences code,
    h.start < h.stop ∧ h.stop ≤ bodyStop h ∧ bodyStop h ≤ code.length ∧
      body h.rest = code.slice h.stop (bodyStop h)
  bodies_apart : (classHeader.occurrences code).Pairwise fun a b => bodyStop a ≤ b.start
  /-- Behind a header the text is at its end or goes on with a newline. -/
  header_ends_line : ∀ h ∈ classHeader.occurrences code,
    (code.drop h.stop).head?.all (· == newline) = true
  no_class_in_body : ∀ h ∈ classHeader.occurrences code, ∀ p, h.stop ≤ p → p < bodyStop h →
    Read.lineStart (Bytes.lastAfter none (code.take p)) = true → ¬ OpensClass (code.drop p)
  /-- All methods, attributes and functions of the outline are placed in the source. -/
  methods_placed : (placedMembers method code).map Prod.snd =
    (outline code).classes.flatMap ClassInfo.methods
  attributes_placed : (placedMembers selfAttribute code).map Prod.snd =
    (outline code).classes.flatMap ClassInfo.attributes
  functions_placed : (placedFunctions code).map Prod.snd = (outline code).functions
  /-- At its place in the source, each of them has its keyword. -/
  methods_indented : ∀ x ∈ placedMembers method code, IndentedAt code (Bytes.ofString "def") x.1
  attributes_indented : ∀ x ∈ placedMembers selfAttribute code,
    IndentedAt code (Bytes.ofString "self.") x.1
  functions_led : ∀ x ∈ placedFunctions code, LedAt code (Bytes.ofString "def") x.1
  /-- No place is counted twice. -/
  definitions_nodup :
    ((placedMembers method code).map Prod.fst ++ (placedFunctions code).map Prod.fst).Nodup
  attributes_nodup : ((placedMembers selfAttribute code).map Prod.fst).Nodup
  /-- No function is dropped for space in front of it. -/
  functions_kept : ∀ o ∈ function.occurrences code, hasMargin o.taken = false

theorem definitions_nodup (code : Bytes) :
    ((placedMembers method code).map Prod.fst ++ (placedFunctions code).map Prod.fst).Nodup := by
  refine List.nodup_append.mpr ⟨?_, ?_, ?_⟩
  · exact (placedMembers_pairwise method_indentedBy code).imp Nat.ne_of_lt
  · exact (placedFunctions_pairwise code).imp Nat.ne_of_lt
  · intro p hmethod q hfunction hsame
    obtain ⟨x, hx, rfl⟩ := List.mem_map.mp hmethod
    obtain ⟨y, hy, rfl⟩ := List.mem_map.mp hfunction
    have hled := ledAt_of_mem_placedFunctions hy
    rw [← hsame] at hled
    exact hled.not_indentedAt (indentedAt_of_mem_placedMembers method_indentedBy hx)

/-- **No line of Python belongs to two declarations**, in any source text. -/
theorem regions_of_code (code : Bytes) : Regions code where
  bodies_in_text h hh :=
    ⟨(header_inText hh).start_lt_stop classHeader_consumes, Nat.le_add_right _ _,
      bodyStop_le_length hh, (slice_body hh).symm⟩
  bodies_apart :=
    (classHeader.occurrences_pairwise code).imp_of_mem fun ha hb => bodyStop_le_start ha hb
  header_ends_line h hh := header_ends_line hh
  no_class_in_body h hh p := not_opensClass_in_body hh
  methods_placed := by
    rw [map_snd_placedMembers, outline, Outline.ofParts_eq, List.flatMap_map]
    rfl
  attributes_placed := by
    rw [map_snd_placedMembers, outline, Outline.ofParts_eq, List.flatMap_map]
    rfl
  functions_placed := by
    rw [placedFunctions, outline, Outline.ofParts_eq, List.map_map]
    rfl
  methods_indented x := indentedAt_of_mem_placedMembers method_indentedBy
  attributes_indented x := indentedAt_of_mem_placedMembers selfAttribute_indentedBy
  functions_led x := ledAt_of_mem_placedFunctions
  definitions_nodup := definitions_nodup code
  attributes_nodup := (placedMembers_pairwise selfAttribute_indentedBy code).imp Nat.ne_of_lt
  functions_kept o := hasMargin_function

end ClassOutline.Python
