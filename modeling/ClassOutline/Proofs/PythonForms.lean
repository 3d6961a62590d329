import ClassOutline.Extract.Python
import ClassOutline.Proofs.Text.Occurrences
import ClassOutline.Proofs.Text.Words

/-!
# What the forms of Python read

For each form that an outline of Python is made with: what is known of a text in which it was read,
and of the parts that were read off it. Nothing is assumed of the text. The laws for source as it is
usually written are in `ClassOutline.Proofs.PythonSource`.
-/

namespace ClassOutline.Python

/-! ## The end of a line -/

/-- A line ends at a newline or at the end of the text. -/
theorem lineEnd_eq_some {s t : Bytes} (h : lineEnd s = some t) :
    t <:+ s ∧ t.head?.all (· == newline) = true := by
  have hsplit : s.takeWhile Bytes.isSpace ++ s.dropWhile Bytes.isSpace = s :=
    List.takeWhile_append_dropWhile
  simp only [lineEnd] at h
  split at h
  · obtain rfl := Option.some.inj h
    exact ⟨List.nil_suffix, rfl⟩
  · next after c rest hafter =>
    split at h
    · next hmem =>
      obtain rfl := Option.some.inj h
      rw [List.contains_iff_mem, ← List.mem_reverse] at hmem
      -- the last newline of the run is the first one of the reversed run
      obtain ⟨u, v, hrev, hu⟩ := List.eq_append_cons_of_mem hmem
      have hrun : s.takeWhile Bytes.isSpace = v.reverse ++ newline :: u.reverse := by
        rw [← List.reverse_reverse (s.takeWhile Bytes.isSpace), hrev]
        simp
      have hlast : (s.takeWhile Bytes.isSpace).reverse.takeWhile (· != newline) = u := by
        rw [hrev]
        exact Read.takeWhile_append_stop (Read.bne_of_not_mem hu) (by simp)
      refine ⟨⟨v.reverse, ?_⟩, by simp⟩
      rw [hlast, ← hsplit, hrun, hafter]
      simp
    · cases h

/-! ## Classes -/

/-- The beginning of a class statement: `class` and a name. -/
def OpensClass (s : Bytes) : Prop :=
  ∃ gap name rest, s = Bytes.ofString "class" ++ (gap ++ (name ++ rest)) ∧
    gap ≠ [] ∧ (∀ b ∈ gap, Bytes.isSpace b = true) ∧ name.IsName

/-- At the start of a line, every such beginning is read. -/
theorem OpensClass.read {s : Bytes} (h : OpensClass s) {prev : Option UInt8}
    (hprev : Read.lineStart prev = true) : ∃ r, classStart prev s = some r := by
  obtain ⟨gap, name, rest, rfl, hgap, hspace, hname⟩ := h
  have hlit := Read.literal_append "class" (gap ++ (name ++ rest))
  -- the space ends where the name begins
  have hsp := Read.spaces1_append hgap hspace (hname.head_isSpace rest)
  obtain ⟨w, hword⟩ := Read.exists_word_append hname rest
  exact ⟨((), w.2), by simp [classStart, hprev, hlit, hsp, hword]⟩

/-- What a class header that was read tells of the text and of its parts. -/
structure HeaderRead (prev : Option UInt8) (s name bases rest : Bytes) : Prop where
  lineStart : Read.lineStart prev = true
  opens : OpensClass s
  consumed : ∃ more, s = Bytes.ofString "class" ++ (more ++ rest)
  name_isName : name.IsName
  bases_plain : (0x29 : UInt8) ∉ bases
  ends_line : rest.head?.all (· == newline) = true

theorem classHeader_eq_some {prev : Option UInt8} {s name bases rest : Bytes}
    (h : classHeader prev s = some ((name, bases), rest)) :
    HeaderRead prev s name bases rest := by
  simp only [classHeader, Option.bind_eq_bind, Option.bind_eq_some_iff, Option.guard_eq_some',
    Option.pure_def, Option.some.injEq, Prod.mk.injEq, Prod.exists] at h
  obtain ⟨-, hstart, t, hlit, t', hsp, name, t'', hword, t₃, hcolon, t₄, hend, ⟨rfl, rfl⟩, rfl⟩ := h
  obtain ⟨gap, rfl, hgap, hspace⟩ := Read.spaces1_split hsp
  obtain ⟨rfl, hname, -⟩ := Read.word_eq_some hword
  obtain ⟨hsuffix, hends⟩ := lineEnd_eq_some hend
  have hcode := Read.literal_eq_some hlit
  -- the list of bases may be missing
  have hparts : ∃ bases t₂, (Read.parenthesized (Read.spaces t'')).getD ([], Read.spaces t'') =
      (bases, t₂) ∧ t₂ <:+ t'' ∧ (0x29 : UInt8) ∉ bases := by
    cases hparen : Read.parenthesized (Read.spaces t'') with
    | none => exact ⟨[], _, rfl, Read.spaces_suffix t'', List.not_mem_nil⟩
    | some r =>
      obtain ⟨hsplit, hplain⟩ := Read.parenthesized_eq_some hparen
      refine ⟨r.1, r.2, rfl, ?_, hplain⟩
      have hrest : r.2 <:+ Read.spaces t'' := by
        rw [hsplit]
        exact ⟨0x28 :: (r.1 ++ [0x29]), by simp⟩
      exact hrest.trans (Read.spaces_suffix t'')
  obtain ⟨bases, t₂, hparts, ht₂, hplain⟩ := hparts
  rw [hparts] at hcolon ⊢
  have hrest : t₄ <:+ gap ++ (name ++ t'') :=
    hsuffix.trans ((Read.byte_suffix hcolon).trans (ht₂.trans
      ((List.suffix_append name t'').trans (List.suffix_append gap _))))
  obtain ⟨more, hmore⟩ := hrest
  refine ⟨hstart, ⟨gap, name, t'', hcode, hgap, hspace, hname⟩, ⟨more, ?_⟩, hname, hplain, hends⟩
  rw [hmore]
  exact hcode

theorem classHeader_consumes : classHeader.Consumes := by
  intro prev s value rest h
  obtain ⟨more, rfl⟩ := (classHeader_eq_some h).consumed
  refine ⟨Bytes.ofString "class" ++ more, ?_, by simp⟩
  exact List.append_ne_nil_of_left_ne_nil (by decide) _

/-- Of the text before, a class statement sees only whether a line begins. -/
theorem OpensClass.read_behind {s u : Bytes} (h : OpensClass s) {prev : Option UInt8}
    (hprev : Read.lineStart (Bytes.lastAfter prev u) = true) :
    ∃ r, classStart (Bytes.lastAfter none u) s = some r := by
  apply h.read
  by_cases hne : u = []
  · rw [hne]
    rfl
  · rw [Bytes.lastAfter_of_ne_nil hne none prev]
    exact hprev

/-- The body of a class is what stands before the next class statement. -/
theorem body_split (rest : Bytes) :
    ∃ tail, rest = body rest ++ tail ∧ classStart.Silent none (body rest) tail := by
  unfold body
  cases hfirst : classStart.first? rest with
  | none => exact ⟨[], by simp, Form.silent_of_firstFrom_eq_none hfirst⟩
  | some next =>
    obtain ⟨u, hsplit, hstart, hsilent, -⟩ := Form.firstFrom_eq_some hfirst
    rw [Nat.zero_add] at hstart
    have htake : rest.take next.start = u := by
      rw [hsplit, hstart, List.take_left]
    refine ⟨next.here, ?_, ?_⟩
    · simp only [htake]
      exact hsplit
    · simp only [htake]
      exact hsilent

/-! ## Functions, methods and attributes -/

theorem functionHead_eq_some {s name params t : Bytes}
    (h : functionHead s = some ((name, params), t)) :
    name.IsName ∧ (0x29 : UInt8) ∉ params ∧ ∃ more, s = Bytes.ofString "def" ++ (more ++ t) := by
  simp only [functionHead, Option.bind_eq_bind, Option.bind_eq_some_iff, Option.pure_def,
    Option.some.injEq, Prod.mk.injEq, Prod.exists] at h
  obtain ⟨t₁, hlit, t₂, hsp, w, u, t₃, hsig, t₄, hcolon, ⟨rfl, rfl⟩, rfl⟩ := h
  obtain ⟨hname, hparams, hsuffix⟩ := Read.signature_eq_some hsig
  have hrest : t₄ <:+ t₁ :=
    ((Read.byte_suffix hcolon).trans (Read.spaces_suffix t₃)).trans
      (hsuffix.trans (Read.spaces1_suffix hsp))
  obtain ⟨more, rfl⟩ := hrest
  exact ⟨hname, hparams, more, Read.literal_eq_some hlit⟩

theorem function_eq_some {prev : Option UInt8} {s rest : Bytes} {f : FunctionInfo}
    (h : function prev s = some (f, rest)) :
    Read.lineStart prev = true ∧ ∃ more, s = Bytes.ofString "def" ++ (more ++ rest) := by
  simp only [function, Option.bind_eq_bind, Option.bind_eq_some_iff, Option.guard_eq_some',
    Option.pure_def, Option.some.injEq, Prod.mk.injEq, Prod.exists] at h
  obtain ⟨-, hstart, name, params, t, hhead, -, rfl⟩ := h
  exact ⟨hstart, (functionHead_eq_some hhead).2.2⟩

theorem function_consumes : function.Consumes := by
  intro prev s value rest h
  obtain ⟨-, more, rfl⟩ := function_eq_some h
  refine ⟨Bytes.ofString "def" ++ more, ?_, by simp⟩
  exact List.append_ne_nil_of_left_ne_nil (by decide) _

/-- A byte that indents a line. -/
def isIndent (b : UInt8) : Bool := b == 0x20 || b == 9

theorem indentation_eq_some {s t : Bytes} (h : indentation s = some t) :
    ∃ indent, s = indent ++ t ∧ indent ≠ [] ∧ ∀ b ∈ indent, isIndent b = true := by
  obtain ⟨⟨indent, t⟩, hrun, rfl⟩ := Option.map_eq_some_iff.mp h
  exact ⟨indent, Read.run1_eq_some hrun⟩

/-- The form is read at the start of an indented line that goes on with the keyword. -/
structure IndentedBy {α : Type} (form : Form α) (keyword : Bytes) : Prop where
  read : ∀ prev s value rest, form prev s = some (value, rest) → Read.lineStart prev = true ∧
    ∃ indent more, s = indent ++ (keyword ++ (more ++ rest)) ∧ indent ≠ [] ∧
      ∀ b ∈ indent, isIndent b = true
  keyword_ne : keyword ≠ []
  /-- The indentation ends where the keyword begins. -/
  keyword_stop : ∀ s, (keyword ++ s).head?.any isIndent = false

theorem IndentedBy.consumes {α : Type} {form : Form α} {keyword : Bytes}
    (h : IndentedBy form keyword) : form.Consumes := by
  intro prev s value rest hread
  obtain ⟨-, indent, more, rfl, hne, -⟩ := h.read prev s value rest hread
  exact ⟨indent ++ (keyword ++ more), List.append_ne_nil_of_left_ne_nil hne _, by simp⟩

theorem method_indentedBy : IndentedBy method (Bytes.ofString "def") := by
  refine ⟨?_, by decide, fun _ => rfl⟩
  intro prev s value rest h
  simp only [method, Option.bind_eq_bind, Option.bind_eq_some_iff, Option.guard_eq_some',
    Option.pure_def, Option.some.injEq, Prod.mk.injEq, Prod.exists] at h
  obtain ⟨-, hstart, t, hindent, name, params, t', hhead, -, rfl⟩ := h
  obtain ⟨indent, rfl, hne, hall⟩ := indentation_eq_some hindent
  obtain ⟨-, -, more, rfl⟩ := functionHead_eq_some hhead
  exact ⟨hstart, indent, more, rfl, hne, hall⟩

/-- What follows an assigned value is an end of the text. -/
theorem assigned_suffix {s t : Bytes} (h : assigned s = some t) : t <:+ s := by
  simp only [assigned] at h
  split at h
  · next b after hspaces =>
    obtain rfl := Option.some.inj h
    have hsuffix := Read.spaces_suffix s
    rw [hspaces] at hsuffix
    exact (List.dropWhile_suffix _).trans hsuffix
  · split at h
    · -- newlines at the end, which read the same backwards
      obtain rfl := Option.some.inj h
      have hall : ∀ b ∈ s.reverse.takeWhile (· == newline), b = newline := by
        intro b hb
        simpa using Read.of_mem_takeWhile hb
      have hmirror : (s.reverse.takeWhile (· == newline)).reverse =
          s.reverse.takeWhile (· == newline) := by
        rw [List.eq_replicate_of_mem hall, List.reverse_replicate]
      rw [← hmirror]
      have hprefix := List.takeWhile_prefix (l := s.reverse) (· == newline)
      rw [← List.reverse_suffix, List.reverse_reverse] at hprefix
      exact hprefix
    · cases h

theorem selfAttribute_indentedBy : IndentedBy selfAttribute (Bytes.ofString "self.") := by
  refine ⟨?_, by decide, fun _ => rfl⟩
  intro prev s value rest h
  simp only [selfAttribute, Option.bind_eq_bind, Option.bind_eq_some_iff, Option.guard_eq_some',
    Option.pure_def, Option.some.injEq, Prod.mk.injEq, Prod.exists] at h
  obtain ⟨-, hstart, t, hindent, t₁, hlit, name, t₂, hword, t₃, hbyte, t₄, hvalue, -, rfl⟩ := h
  obtain ⟨indent, rfl, hne, hall⟩ := indentation_eq_some hindent
  obtain ⟨rfl, -, -⟩ := Read.word_eq_some hword
  have hrest : t₄ <:+ name ++ t₂ :=
    (assigned_suffix hvalue).trans ((Read.byte_suffix hbyte).trans
      ((Read.spaces_suffix t₂).trans (List.suffix_append name t₂)))
  obtain ⟨more, hmore⟩ := hrest
  refine ⟨hstart, indent, more, ?_, hne, hall⟩
  rw [hmore, Read.literal_eq_some hlit]

end ClassOutline.Python
