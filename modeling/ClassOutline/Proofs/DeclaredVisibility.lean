import ClassOutline.Proofs.JavaReadings

/-!
# Declared visibilities of Java methods

A method may be read at any edge of a word. So a visibility keyword can be read as a visibility, or
as the end of a return type of a reading that began before it. This module says which of the two
happens, for every text of a block.

`Declares` is what a declaration writes up to its parenthesis, `front` is the text of a block up to
the parenthesis of a method that was read, and `Continues` says of the text before a declaration
that it can be taken for its beginning.

## Main results

- `exists_run_of_append`: a keyword that is not the lead is the end of the return type
- `start_le_of_declares`, `start_lt_of_continues`: where a method begins that ends in a declaration
- `method_visibility`: a keyword is the visibility exactly if a type follows it or nothing before it
  continues into it, and is the end of the return type otherwise
-/

namespace ClassOutline.Java

open Bytes (AllSpace NoSpace EndsSolid)
open Read (isHeadByte)

variable {s rest type name params part more stem : Bytes}

/-! ## Keywords inside other pieces -/

/-- The letter that every keyword begins with stands nowhere else in a keyword. So of what stands in
a keyword only the whole begins like one. -/
theorem eq_nil_of_text_eq_append {v : Visibility} {z k : Bytes} (h : v.text = z ++ k)
    (hk : k.head? = some 0x70) : z = [] := by
  have htail : (0x70 : UInt8) ∉ v.text.tail := by cases v <;> decide
  obtain ⟨k, rfl⟩ := List.head?_eq_some_iff.mp hk
  cases z with
  | nil => rfl
  | cons b z =>
    rw [h] at htail
    exact absurd (List.mem_append_right z List.mem_cons_self) htail

theorem isTypeByte_text (v : Visibility) : ∀ b ∈ v.text, isTypeByte b = true :=
  (isTypeText_of_isName (isName_text v)).isType

theorem head?_text (v : Visibility) : v.text.head? = some 0x70 := by cases v <;> rfl

theorem Lead.eq_nil_of_eq_append {visibility lead z k : Bytes} (h : Lead visibility lead)
    (hsplit : lead = z ++ k) (hk : k.head? = some 0x70) : z = [] := by
  cases h with
  | declared v => exact eq_nil_of_text_eq_append hsplit hk
  | undeclared => exact (List.append_eq_nil_iff.mp hsplit.symm).1

/-- No text ends in a keyword and in `static`. -/
theorem append_text_ne_append_static (v : Visibility) (z x : Bytes) :
    z ++ v.text ≠ x ++ Bytes.ofString "static" := by
  intro h
  have hends : Bytes.ofString "static" <:+ z ++ v.text := ⟨x, h.symm⟩
  rcases List.suffix_or_suffix_of_suffix hends (List.suffix_append z v.text) with hs | hs
  · cases v <;> exact absurd hs (by decide)
  · cases v <;> exact absurd hs (by decide)

/-- The field that a lead and a stem end in stands behind the lead, or behind `static`. -/
theorem eq_lead_of_append_field {visibility lead x g y : Bytes} (hlead : Lead visibility lead)
    (hstem : Stem type stem) (hx : EndsSolid x) (hg : AllSpace g) (hne : g ≠ []) (hy : NoSpace y)
    (h : lead ++ stem = x ++ (g ++ y)) :
    x = lead ∨ ∃ gap, AllSpace gap ∧ x = lead ++ (gap ++ Bytes.ofString "static") := by
  -- a text without white space has no such field
  have hsolid : ∀ {w : Bytes}, NoSpace w → w ≠ x ++ (g ++ y) := by
    rintro w hw rfl
    obtain ⟨b, hb⟩ := List.exists_mem_of_ne_nil g hne
    have hspace := hw b (List.mem_append_right _ (List.mem_append_left _ hb))
    rw [hg b hb] at hspace
    cases hspace
  have hboth : ∀ {w : Bytes}, NoSpace w → NoSpace (lead ++ w) :=
    fun hw => List.forall_mem_append.mpr ⟨hlead.noSpace, hw⟩
  have hfield : ∀ {gap w : Bytes}, AllSpace gap → NoSpace w → lead ++ (gap ++ w) = x ++ (g ++ y) →
      x = lead := by
    intro gap w hgap hw heq
    by_cases hempty : gap = []
    · subst hempty
      exact absurd heq (hsolid (hboth hw))
    · exact (Bytes.append_field_inj hlead.endsSolid hx hgap hg hempty hne hw hy heq).1.symm
  cases hstem with
  | bare => exact absurd h (hsolid (hboth (List.forall_mem_nil _)))
  | static hgap => exact .inl (hfield hgap isTypeText_static.noSpace h)
  | typed hgap htype => exact .inl (hfield hgap htype.noSpace h)
  | @staticTyped gap gap' _ hgap hgap' hne' htype =>
    have hstatic : EndsSolid (lead ++ (gap ++ Bytes.ofString "static")) := by
      rw [← List.append_assoc]
      exact isTypeText_static.noSpace.endsSolid_append isTypeText_static.ne_nil _
    have heq : (lead ++ (gap ++ Bytes.ofString "static")) ++ (gap' ++ type) = x ++ (g ++ y) := by
      simpa using h
    exact .inr ⟨gap, hgap, (Bytes.append_field_inj hstatic hx hgap' hg hne' hne htype.noSpace hy
      heq).1.symm⟩

/-! ## Declarations with a visibility -/

/-- What may stand between the keyword and the name of a declaration: nothing, a type, or `static`
and a type, each behind white space. -/
inductive Between : Bytes → Prop where
  | nothing : Between []
  | type {gap type : Bytes} (hgap : AllSpace gap) (hne : gap ≠ []) (htype : IsTypeText type) :
      Between (gap ++ type)
  | staticType {gap gap' type : Bytes} (hgap : AllSpace gap) (hne : gap ≠ [])
      (hgap' : AllSpace gap') (hne' : gap' ≠ []) (htype : IsTypeText type) :
      Between (gap ++ (Bytes.ofString "static" ++ (gap' ++ type)))

variable {between : Bytes}

theorem Between.exists_stem (h : Between between) : ∃ type, Stem type between := by
  cases h with
  | nothing => exact ⟨[], .bare⟩
  | type hgap _ htype => exact ⟨_, .typed hgap htype⟩
  | staticType hgap _ hgap' hne' htype => exact ⟨_, .staticTyped hgap hgap' hne' htype⟩

/-- A keyword in front of a field that a lead and a stem end in can only be the lead. -/
theorem eq_nil_of_field {visibility lead z g y : Bytes} {v : Visibility}
    (hlead : Lead visibility lead) (hstem : Stem type stem) (hg : AllSpace g) (hne : g ≠ [])
    (hy : NoSpace y) (h : lead ++ stem = z ++ (v.text ++ (g ++ y))) : z = [] := by
  have hkeyword : EndsSolid (z ++ v.text) :=
    (isName_text v).noSpace.endsSolid_append v.text_ne_nil z
  rw [← List.append_assoc] at h
  rcases eq_lead_of_append_field hlead hstem hkeyword hg hne hy h with heq | ⟨gap, -, heq⟩
  · exact hlead.eq_nil_of_eq_append heq.symm (head?_text v)
  · rw [← List.append_assoc] at heq
    exact absurd heq (append_text_ne_append_static v _ _)

/-- A keyword with something between it and the name can only be the lead. -/
theorem eq_nil_of_between {visibility lead z : Bytes} {v : Visibility}
    (hlead : Lead visibility lead) (hstem : Stem type stem) (hbetween : Between between)
    (hne : between ≠ []) (h : lead ++ stem = z ++ (v.text ++ between)) : z = [] := by
  cases hbetween with
  | nothing => exact absurd rfl hne
  | type hgap hgapne htype => exact eq_nil_of_field hlead hstem hgap hgapne htype.noSpace h
  | @staticType gap gap' T hgap hgapne hgap' hne' htype =>
    have hends : EndsSolid (z ++ (v.text ++ (gap ++ Bytes.ofString "static"))) := by
      rw [← List.append_assoc, ← List.append_assoc]
      exact isTypeText_static.noSpace.endsSolid_append isTypeText_static.ne_nil _
    have heq : lead ++ stem =
        (z ++ (v.text ++ (gap ++ Bytes.ofString "static"))) ++ (gap' ++ T) := by
      simpa using h
    -- without its last field, this is a lead and a stem again
    rcases eq_lead_of_append_field hlead hstem hends hgap' hne' htype.noSpace heq with
      hrest | ⟨_, hgap'', hrest⟩
    · rw [← List.append_nil lead] at hrest
      exact eq_nil_of_field hlead .bare hgap hgapne isTypeText_static.noSpace hrest.symm
    · exact eq_nil_of_field hlead (.static hgap'') hgap hgapne isTypeText_static.noSpace hrest.symm

/-- What stands before a declaration can be taken for its beginning: white space and type bytes up
to the edge of a word. -/
def Continues (u : Bytes) : Prop :=
  ∃ a gap run, u = a ++ (gap ++ run) ∧ gap ++ run ≠ [] ∧ AllSpace gap ∧
    (∀ b ∈ run, isTypeByte b = true) ∧
    Read.wordBoundary (Bytes.lastAfter none a) (gap ++ run) = true

/-- A type behind white space that ends like a keyword ends in it. -/
theorem exists_run_of_append_type {x gap z : Bytes} {v : Visibility} (hgap : AllSpace gap)
    (hx : gap = [] → ∀ {z k : Bytes}, x = z ++ k → k.head? = some 0x70 → z = []) (hne : z ≠ [])
    (h : x ++ (gap ++ type) = z ++ v.text) :
    ∃ run, type = run ++ v.text ∧ z = x ++ (gap ++ run) := by
  rw [← List.append_assoc] at h
  -- the keyword begins inside the type, or before it
  rcases List.append_eq_append_iff.mp h with ⟨run, rfl, rfl⟩ | ⟨k, hk, htext⟩
  · exact ⟨run, rfl, by simp⟩
  · by_cases hnil : k = []
    · subst hnil
      exact ⟨[], by simpa using htext.symm, by simpa using hk.symm⟩
    · -- the keyword would begin before the type, but what is there does not end in its beginning
      exfalso
      have hsolid : NoSpace k :=
        fun b hb => (isName_text v).noSpace b (htext ▸ List.mem_append_left _ hb)
      by_cases hempty : gap = []
      · have hhead : k.head? = some 0x70 := by
          have htextHead := head?_text v
          rw [htext, List.head?_append_of_ne_nil _ hnil] at htextHead
          exact htextHead
        exact hne (hx hempty (by simpa [hempty] using hk) hhead)
      · exact hnil (hsolid.eq_nil_of_append hgap hempty hk.symm)

/-- A keyword that is not the lead is the end of the type. -/
theorem exists_run_of_append {visibility lead z : Bytes} {v : Visibility}
    (hlead : Lead visibility lead) (hstem : Stem type stem) (hne : z ≠ [])
    (h : lead ++ stem = z ++ v.text) :
    ∃ run, type = run ++ v.text ∧
      ((∃ gap, AllSpace gap ∧ z = lead ++ (gap ++ run)) ∨
        ∃ x gap, AllSpace gap ∧ gap ≠ [] ∧ z = x ++ (Bytes.ofString "static" ++ (gap ++ run))) := by
  cases hstem with
  | bare =>
    rw [List.append_nil] at h
    exact absurd (hlead.eq_nil_of_eq_append h (head?_text v)) hne
  | static hgap =>
    rw [← List.append_assoc] at h
    exact absurd h.symm (append_text_ne_append_static v _ _)
  | @typed gap _ hgap htype =>
    obtain ⟨run, hrun, hz⟩ :=
      exists_run_of_append_type hgap (fun _ _ _ => hlead.eq_nil_of_eq_append) hne h
    exact ⟨run, hrun, .inl ⟨gap, hgap, hz⟩⟩
  | @staticTyped gap gap' _ hgap hgap' hne' htype =>
    have heq : (lead ++ (gap ++ Bytes.ofString "static")) ++ (gap' ++ type) = z ++ v.text := by
      simpa using h
    obtain ⟨run, hrun, hz⟩ := exists_run_of_append_type hgap' (fun hnil => absurd hnil hne') hne heq
    exact ⟨run, hrun, .inr ⟨lead ++ gap, gap', hgap', hne', by rw [hz]; simp⟩⟩

/-- A text that is the declaration of a method up to its parenthesis: a keyword, what may stand
between, and a name. -/
inductive Declares (v : Visibility) (between : Bytes) : Bytes → Prop where
  | mk {name part : Bytes} (hbetween : Between between) (hpart : NamePart name part) :
      Declares v between (v.text ++ (between ++ part))

theorem Declares.isHeadByte {v : Visibility} {text : Bytes} (h : Declares v between text) :
    ∀ b ∈ text, isHeadByte b = true := by
  obtain ⟨hbetween, hpart⟩ := h
  obtain ⟨type, hstem⟩ := hbetween.exists_stem
  exact List.forall_mem_append.mpr ⟨isHeadByte_text v,
    List.forall_mem_append.mpr ⟨hstem.isHeadByte, hpart.isHeadByte⟩⟩

/-! ## Edges of words -/

theorem wordBoundary_append {prev : Option UInt8} {u : Bytes} (hne : u ≠ []) (s : Bytes) :
    Read.wordBoundary prev (u ++ s) = Read.wordBoundary prev u := by
  cases u with
  | nil => exact absurd rfl hne
  | cons b u => rfl

theorem wordStart_of_boundary {prev : Option UInt8} (v : Visibility) {s : Bytes}
    (h : Read.wordBoundary prev (v.text ++ s) = true) : Read.wordStart prev = true := by
  have hhead : (v.text ++ s).head?.any Bytes.isWord = true := by cases v <;> rfl
  rw [Read.wordBoundary, hhead] at h
  simpa [Read.wordStart] using h

theorem wordStart_lastAfter_word {w : Bytes} (hw : w.IsName) (x : Bytes) :
    Read.wordStart (Bytes.lastAfter none (x ++ w)) = false := by
  obtain ⟨b, hb, hlast⟩ := Bytes.lastAfter_mem hw.1 (Bytes.lastAfter none x)
  rw [Bytes.lastAfter_append, hlast, Read.wordStart, Option.any_some, hw.2 b hb]
  rfl

/-- A word ends in front of white space. -/
theorem continues_of_word {w gap run : Bytes} (hw : w.IsName) (hgap : AllSpace gap) (hne : gap ≠ [])
    (hrun : ∀ b ∈ run, isTypeByte b = true) (x : Bytes) : Continues (x ++ (w ++ (gap ++ run))) := by
  refine ⟨x ++ w, gap, run, by simp, List.append_ne_nil_of_left_ne_nil hne _, hgap, hrun, ?_⟩
  have hword := wordStart_lastAfter_word hw x
  rw [Read.wordStart, Bool.not_eq_false'] at hword
  have hspace : (gap ++ run).head?.any Bytes.isWord = false :=
    hgap.head?_append_any hne (fun _ => Bytes.isSpace_of_isWord) run
  rw [Read.wordBoundary, hword, hspace]
  rfl

/-! ## Fronts -/

/-- The text of a block up to the parenthesis of a method. -/
def front (block : Bytes) (o : Occurrence Method) : Bytes :=
  block.take o.start ++ o.here.takeWhile (· != 0x28)

variable {block : Bytes} {o : Occurrence Method}

/-- A method of a block was read as a lead, a stem and a name part, and behind the parenthesis stand
its parameters. -/
theorem exists_front (h : o.InText method block) :
    ∃ lead stem part more params, front block o = block.take o.start ++ (lead ++ (stem ++ part)) ∧
      o.here = lead ++ (stem ++ (part ++ 0x28 :: more)) ∧
      block = front block o ++ 0x28 :: more ∧ Lead o.value.visibility lead ∧
      Stem o.value.returns stem ∧ NamePart o.value.name part ∧
      paramsTail more = some (params, o.rest) := by
  obtain ⟨lead, stem, part, more, params, hhere, hlead, hstem, hpart, hmore⟩ :=
    exists_stem_of_method h.read
  have hopen : (0x28 : UInt8) ∉ lead ++ (stem ++ part) :=
    not_mem_of_isHeadByte (List.forall_mem_append.mpr ⟨hlead.isHeadByte,
      List.forall_mem_append.mpr ⟨hstem.isHeadByte, hpart.isHeadByte⟩⟩) rfl
  have hsplit : o.here = (lead ++ (stem ++ part)) ++ 0x28 :: more := by
    rw [hhere]
    simp
  have hfront : front block o = block.take o.start ++ (lead ++ (stem ++ part)) := by
    rw [front, hsplit, Read.takeWhile_append_stop (Read.bne_of_not_mem hopen) rfl]
  refine ⟨lead, stem, part, more, params, hfront, hhere, ?_, hlead, hstem, hpart, hmore⟩
  have hblock := h.take_append_here
  rw [hsplit, ← List.append_assoc, ← hfront] at hblock
  exact hblock.symm

theorem exists_brace_of_paramsTail (h : paramsTail more = some (params, rest)) :
    ∃ u, more = u ++ Block.opening :: rest := by
  simp only [paramsTail, Option.bind_eq_bind, Option.bind_eq_some_iff, Option.pure_def,
    Option.some.injEq, Prod.mk.injEq, Prod.exists] at h
  obtain ⟨u, t, hparams, t', hbrace, rfl, rfl⟩ := h
  obtain ⟨hsplit, -⟩ := Read.parenthesized_eq_some hparams
  obtain ⟨gap, hgap, -⟩ := Read.spaces_split t
  refine ⟨u ++ 0x29 :: gap, ?_⟩
  rw [(List.cons.inj hsplit).2, hgap, Read.byte_eq_some hbrace]
  simp

/-- A method ends with its opening brace. -/
theorem exists_brace (h : o.InText method block) :
    ∃ u, block = u ++ Block.opening :: o.rest ∧ o.start ≤ u.length ∧ o.stop = u.length + 1 := by
  obtain ⟨lead, stem, part, more, params, -, hhere, -, -, -, -, hmore⟩ := exists_front h
  obtain ⟨u, rfl⟩ := exists_brace_of_paramsTail hmore
  have hsplit : o.here = (lead ++ (stem ++ (part ++ 0x28 :: u))) ++ Block.opening :: o.rest := by
    rw [hhere]
    simp
  have hblock : block = (block.take o.start ++ (lead ++ (stem ++ (part ++ 0x28 :: u)))) ++
      Block.opening :: o.rest := by
    have hwhole := h.take_append_here
    rw [hsplit, ← List.append_assoc] at hwhole
    exact hwhole.symm
  have hstart : (block.take o.start).length = o.start := List.length_take_of_le h.start_le
  refine ⟨_, hblock, ?_, ?_⟩
  · rw [List.length_append]
    omega
  · have hlength := congrArg List.length hsplit
    rw [List.length_append, List.length_cons] at hlength
    rw [Occurrence.stop, List.length_append]
    omega

/-- Where a method is read, and from there to the parenthesis of another one nothing but head bytes
stands, the other one does not begin in between. -/
theorem start_le_of_read {w x : Bytes} {r : Method × Bytes}
    (hblock : block = w ++ (x ++ 0x28 :: more)) (hx : ∀ b ∈ x, isHeadByte b = true)
    (hread : method (Bytes.lastAfter none w) (x ++ 0x28 :: more) = some r)
    (ho : o ∈ method.occurrences block) (hle : o.start ≤ w.length + x.length) :
    o.start ≤ w.length := by
  by_contra hlate
  obtain ⟨p, hp, hbefore, hcovers⟩ := Form.exists_covering (by simp) hread
  rw [← hblock] at hp
  -- what covers the place ends before the other one begins, in a brace among the head bytes
  have hdiffer : p ≠ o := by
    rintro rfl
    omega
  have hordered : p.stop ≤ o.start := by
    rcases Form.stop_le_start_or ho hp hdiffer with h | h
    · exact h
    · have hnonneg : o.start ≤ o.stop := Nat.le_add_right _ _
      omega
  obtain ⟨u, hu, hfrom, hstop⟩ := exists_brace (Form.inText_of_mem_occurrences hp)
  have hbegins : w <+: u :=
    List.prefix_of_prefix_length_le ⟨_, hblock.symm⟩ ⟨_, hu.symm⟩ (by omega)
  obtain ⟨x', rfl⟩ := hbegins
  rw [List.length_append] at hstop
  rw [hblock, List.append_assoc] at hu
  have hbrace := congrArg (·[x'.length]?) (List.append_cancel_left hu)
  have hinside : x'.length < x.length := by omega
  simp only [List.getElem?_append_left hinside, List.getElem?_append_right (Nat.le_refl _),
    Nat.sub_self, List.getElem?_cons_zero] at hbrace
  exact not_mem_of_isHeadByte hx rfl (List.mem_of_getElem? hbrace)

/-! ## The visibility of a method -/

section Front

variable {u text : Bytes} {v : Visibility}

/-- Where something is read that goes on to the parenthesis of a method, the method has begun. -/
theorem start_le_of_front {w x : Bytes} (ho : o ∈ method.occurrences block)
    (hfront : front block o = w ++ x) (hx : ∀ b ∈ x, isHeadByte b = true)
    (hread : ∀ more params rest, paramsTail more = some (params, rest) →
      ∃ r, method (Bytes.lastAfter none w) (x ++ 0x28 :: more) = some r) :
    o.start ≤ w.length := by
  have htext := Form.inText_of_mem_occurrences ho
  obtain ⟨lead, stem, part, more, params, hstart, -, hblock, -, -, -, hmore⟩ := exists_front htext
  obtain ⟨r, hr⟩ := hread more params _ hmore
  rw [hfront, List.append_assoc] at hblock
  refine start_le_of_read hblock hx hr ho ?_
  have hlength := congrArg List.length (hstart.symm.trans hfront)
  simp only [List.length_append, List.length_take_of_le htext.start_le] at hlength
  omega

/-- A method is read no later than at the keyword of a declaration up to its parenthesis. -/
theorem start_le_of_declares (ho : o ∈ method.occurrences block)
    (hfront : front block o = u ++ text) (htext : Declares v between text)
    (hprev : Read.wordStart (Bytes.lastAfter none u) = true) :
    o.start ≤ u.length := by
  refine start_le_of_front ho hfront htext.isHeadByte fun more params rest hmore => ?_
  obtain ⟨hbetween, hpart⟩ := htext
  obtain ⟨type, hstem⟩ := hbetween.exists_stem
  obtain ⟨r, hr, -⟩ := exists_method_of_visibility hprev v hstem hpart hmore
  exact ⟨r, by simpa using hr⟩

/-- A method is read before the keyword of a declaration without a type, where what stands before
can be taken for its beginning. -/
theorem start_lt_of_continues (ho : o ∈ method.occurrences block)
    (hfront : front block o = u ++ text) (htext : Declares v [] text) (hu : Continues u) :
    o.start < u.length := by
  obtain ⟨a, gap, run, rfl, hne, hgap, hrun, hedge⟩ := hu
  obtain @⟨name, part, -, hpart⟩ := htext
  have htype : IsTypeText (run ++ v.text) :=
    ⟨List.append_ne_nil_of_right_ne_nil _ v.text_ne_nil,
      List.forall_mem_append.mpr ⟨hrun, isTypeByte_text v⟩⟩
  have hhead : ∀ b ∈ gap ++ (run ++ (v.text ++ part)), isHeadByte b = true := by
    rw [← List.append_assoc run]
    exact List.forall_mem_append.mpr ⟨isHeadByte_of_allSpace hgap,
      List.forall_mem_append.mpr ⟨htype.isHeadByte, hpart.isHeadByte⟩⟩
  have hle : o.start ≤ a.length := by
    refine start_le_of_front ho (by simpa using hfront) hhead fun more params rest hmore => ?_
    have hboundary : Read.wordBoundary (Bytes.lastAfter none a)
        ((gap ++ (run ++ v.text)) ++ (part ++ 0x28 :: more)) = true := by
      rw [← List.append_assoc gap, List.append_assoc (gap ++ run), wordBoundary_append hne]
      exact hedge
    obtain ⟨r, hr⟩ := exists_method_of_boundary (.typed hgap htype) hpart hmore hboundary
    exact ⟨r, by simpa using hr⟩
  have hpos := List.length_pos_iff.mpr hne
  rw [List.length_append]
  omega

/-- A method that is read before a declaration or at it has the keyword in its lead and stem. -/
theorem exists_split (ho : o ∈ method.occurrences block) (hfront : front block o = u ++ text)
    (htext : Declares v between text) (hstart : o.start ≤ u.length) :
    ∃ z lead stem name part more params, u = block.take o.start ++ z ∧
      lead ++ stem = z ++ (v.text ++ between) ∧
      o.here = z ++ (v.text ++ (between ++ (part ++ 0x28 :: more))) ∧
      Lead o.value.visibility lead ∧ Stem o.value.returns stem ∧ NamePart name part ∧
      paramsTail more = some (params, o.rest) := by
  have hin := Form.inText_of_mem_occurrences ho
  obtain ⟨lead, stem, part, more, params, hhead, hhere, -, hlead, hstem, hpart, hmore⟩ :=
    exists_front hin
  have hlength := List.length_take_of_le hin.start_le
  -- what is left of the text before the declaration belongs to what was read
  have hbegins : block.take o.start <+: u :=
    List.prefix_of_prefix_length_le (hfront ▸ hhead ▸ List.prefix_append _ _)
      (List.prefix_append u text) (by omega)
  obtain ⟨z, hz⟩ := hbegins
  obtain @⟨name, part', hbetween, hpart'⟩ := htext
  have hends : EndsSolid (z ++ (v.text ++ between)) := by
    obtain ⟨type, hstem'⟩ := hbetween.exists_stem
    exact (hstem'.endsSolid_append (.declared v)).append
      (List.append_ne_nil_of_left_ne_nil v.text_ne_nil _) z
  have hsplit : (lead ++ stem) ++ part = (z ++ (v.text ++ between)) ++ part' := by
    rw [hfront, ← hz, List.append_assoc] at hhead
    simpa using (List.append_cancel_left hhead).symm
  obtain ⟨hfields, rfl⟩ :=
    append_part_inj (hstem.endsSolid_append hlead) hends hpart hpart' hsplit
  refine ⟨z, lead, stem, _, part, more, params, hz.symm, hfields, ?_, hlead, hstem, hpart', hmore⟩
  have hassoc := congrArg (· ++ (part ++ 0x28 :: more)) hfields
  rw [hhere]
  simpa using hassoc

/-- At the keyword, the keyword is read. -/
theorem visibility_of_start_eq (ho : o ∈ method.occurrences block)
    (hprev : Read.wordStart (Bytes.lastAfter none (block.take o.start)) = true)
    {params part more rest : Bytes} (hbetween : Between between) (hpart : NamePart name part)
    (hmore : paramsTail more = some (params, rest))
    (hhere : o.here = v.text ++ (between ++ (part ++ 0x28 :: more))) :
    o.value.visibility = v.text ∧ (between = [] → o.value.returns = []) := by
  obtain ⟨type, hstem⟩ := hbetween.exists_stem
  obtain ⟨r, hread, hvisibility, stem, part', more', params', hsplit, hstem', hpart', hmore'⟩ :=
    exists_method_of_visibility hprev v hstem hpart hmore
  rw [← hhere, (Form.inText_of_mem_occurrences ho).read] at hread
  obtain rfl := Option.some.inj hread
  refine ⟨hvisibility, fun hnil => hstem'.eq_nil ?_⟩
  subst hnil
  have hhead : part = stem ++ part' :=
    append_paren_inj hpart.isHeadByte
      (List.forall_mem_append.mpr ⟨hstem'.isHeadByte, hpart'.isHeadByte⟩) (by simpa using hsplit)
  exact (append_part_inj Bytes.endsSolid_nil (hstem'.endsSolid_append .undeclared) hpart hpart'
    (show [] ++ part = ([] ++ stem) ++ part' from hhead)).1.symm

/-- The text before a keyword that is the end of a type can be taken for the beginning. -/
theorem continues_of_run {x z run visibility lead s : Bytes}
    (hlead : Lead visibility lead) (hrun : ∀ b ∈ run, isTypeByte b = true) (hne : z ≠ [])
    (hedge : Read.wordBoundary (Bytes.lastAfter none x) (z ++ s) = true)
    (h : (∃ gap, AllSpace gap ∧ z = lead ++ (gap ++ run)) ∨
      ∃ y gap, AllSpace gap ∧ gap ≠ [] ∧ z = y ++ (Bytes.ofString "static" ++ (gap ++ run))) :
    Continues (x ++ z) := by
  rw [wordBoundary_append hne] at hedge
  -- a keyword or `static` in front of white space is a word that ends there
  rcases h with ⟨gap, hgap, rfl⟩ | ⟨y, gap, hgap, hgapne, rfl⟩
  · cases hlead with
    | undeclared => exact ⟨x, gap, run, rfl, hne, hgap, hrun, hedge⟩
    | declared v =>
      by_cases hempty : gap = []
      · subst hempty
        refine ⟨x, [], v.text ++ run, rfl, hne, List.forall_mem_nil _, ?_, hedge⟩
        exact List.forall_mem_append.mpr ⟨isTypeByte_text v, hrun⟩
      · exact continues_of_word (isName_text v) hgap hempty hrun x
  · rw [← List.append_assoc]
    exact continues_of_word isName_static hgap hgapne hrun (x ++ y)

/-- A method that is read before the keyword of a declaration without a type takes the keyword into
its return type. -/
theorem exists_run_of_start_lt (ho : o ∈ method.occurrences block)
    (hfront : front block o = u ++ text) (htext : Declares v [] text)
    (hstart : o.start < u.length) :
    ∃ run, o.value.returns = run ++ v.text ∧ NoSpace run ∧ Continues u ∧ ∃ x, u = x ++ run := by
  obtain ⟨z, lead, stem, name, part, more, params, rfl, hfields, hhere, hlead, hstem, -, -⟩ :=
    exists_split ho hfront htext hstart.le
  have hne : z ≠ [] := by
    rintro rfl
    rw [List.append_nil, List.length_take] at hstart
    omega
  rw [List.append_nil] at hfields
  obtain ⟨run, hreturns, hbefore⟩ := exists_run_of_append hlead hstem hne hfields
  have hrun : ∀ b ∈ run, isTypeByte b = true :=
    fun b hb => hstem.isType b (hreturns ▸ List.mem_append_left _ hb)
  have hedge := method_headLed.boundary _ _ _ (Form.inText_of_mem_occurrences ho).read
  rw [hhere] at hedge
  refine ⟨run, hreturns, fun b hb => TypeName.isSpace_of_isTypeByte (hrun b hb),
    continues_of_run hlead hrun hne hedge hbefore, ?_⟩
  rcases hbefore with ⟨gap, -, rfl⟩ | ⟨y, gap, -, -, rfl⟩
  · exact ⟨block.take o.start ++ (lead ++ gap), by simp⟩
  · exact ⟨block.take o.start ++ (y ++ (Bytes.ofString "static" ++ gap)), by simp⟩

/-- A declaration with something between the keyword and the name is read from its keyword on. -/
theorem start_eq_of_between (ho : o ∈ method.occurrences block) (hfront : front block o = u ++ text)
    (htext : Declares v between text) (hbetween : between ≠ []) (hstart : o.start ≤ u.length) :
    o.start = u.length := by
  obtain ⟨z, lead, stem, name, part, more, params, rfl, hfields, -, hlead, hstem, -, -⟩ :=
    exists_split ho hfront htext hstart
  have hz : z = [] := by
    obtain ⟨hb, -⟩ := htext
    exact eq_nil_of_between hlead hstem hb hbetween hfields
  rw [hz, List.append_nil, List.length_take_of_le (Form.inText_of_mem_occurrences ho).start_le]

theorem visibility_of_declares (ho : o ∈ method.occurrences block)
    (hfront : front block o = u ++ text) (htext : Declares v between text)
    (hprev : Read.wordStart (Bytes.lastAfter none u) = true) (hstart : o.start = u.length) :
    o.value.visibility = v.text ∧ (between = [] → o.value.returns = []) := by
  obtain ⟨z, lead, stem, name, part, more, params, hu, hfields, hhere, -, -, hpart, hmore⟩ :=
    exists_split ho hfront htext hstart.le
  have hz : z = [] := by
    have hlength := congrArg List.length hu
    rw [List.length_append, List.length_take_of_le (Form.inText_of_mem_occurrences ho).start_le]
      at hlength
    exact List.length_eq_zero_iff.mp (by omega)
  subst hz
  rw [List.append_nil] at hu
  rw [hu] at hprev
  obtain ⟨hbetween, -⟩ := htext
  exact visibility_of_start_eq ho hprev hbetween hpart hmore hhere

/-- A keyword becomes a return type only where it stands for a visibility and something before it
can be taken for the beginning. -/
theorem exists_declares_of_returns (ho : o ∈ method.occurrences block)
    (hreturns : o.value.returns = v.text) :
    ∃ u text, front block o = u ++ text ∧ Declares v [] text ∧ Continues u := by
  have hin := Form.inText_of_mem_occurrences ho
  have hedge := method_headLed.boundary _ _ _ hin.read
  obtain ⟨lead, stem, part, more, params, hfront, hhere, -, hlead, hstem, hpart, hmore⟩ :=
    exists_front hin
  rw [hreturns] at hstem
  generalize htype : v.text = type at hstem
  -- the return type comes from a stem with a type in it, and stands behind something
  cases hstem with
  | bare | static _ => exact absurd htype v.text_ne_nil
  | @typed gap _ hgap _ =>
    subst htype
    have hne : lead ++ gap ≠ [] := by
      intro hnil
      -- the keyword would be read as the visibility
      obtain ⟨rfl, rfl⟩ := List.append_eq_nil_iff.mp hnil
      have hread : o.here = v.text ++ ([] ++ (part ++ 0x28 :: more)) := by simpa using hhere
      rw [hread] at hedge
      have hnone := (visibility_of_start_eq ho (wordStart_of_boundary v hedge) .nothing hpart hmore
        hread).2 rfl
      exact v.text_ne_nil (hreturns.symm.trans hnone)
    refine ⟨block.take o.start ++ (lead ++ gap), v.text ++ ([] ++ part), ?_, ⟨.nothing, hpart⟩, ?_⟩
    · rw [hfront]
      simp
    · refine continues_of_run (s := v.text ++ (part ++ 0x28 :: more)) hlead (List.forall_mem_nil _)
        hne ?_ (.inl ⟨gap, hgap, by simp⟩)
      rw [hhere] at hedge
      simpa using hedge
  | @staticTyped gap gap' _ hgap hgap' hne' _ =>
    subst htype
    refine ⟨block.take o.start ++ (lead ++ (gap ++ (Bytes.ofString "static" ++ gap'))),
      v.text ++ ([] ++ part), ?_, ⟨.nothing, hpart⟩, ?_⟩
    · rw [hfront]
      simp
    · have hcontinues := continues_of_word isName_static hgap' hne' (List.forall_mem_nil _)
        (block.take o.start ++ (lead ++ gap))
      simpa using hcontinues

end Front

/-- **What becomes of a declared visibility.** Where the text up to the parenthesis of a method ends
in a declaration whose keyword begins a word, the keyword is the visibility of the method if a type
stands between it and the name, or if nothing before it can be taken for the beginning of the
declaration. Otherwise the keyword is the end of the return type, and all of it behind white space.
In no other way does a keyword become a return type. -/
theorem method_visibility (block : Bytes) (o : Occurrence Method)
    (ho : o ∈ method.occurrences block) :
    (∀ (v : Visibility) (between u text : Bytes), front block o = u ++ text →
      Declares v between text → Read.wordStart (Bytes.lastAfter none u) = true →
        (between ≠ [] ∨ ¬ Continues u →
          o.value.visibility = v.text ∧ (between = [] → o.value.returns = [])) ∧
        (between = [] ∧ Continues u → v.text <:+ o.value.returns ∧
          ((Bytes.lastAfter none u).any Bytes.isSpace = true → o.value.returns = v.text))) ∧
    (o.value.returns ∈ Visibility.keywords → ∃ (v : Visibility) (u text : Bytes),
      o.value.returns = v.text ∧ front block o = u ++ text ∧ Declares v [] text ∧ Continues u) := by
  refine ⟨?_, fun hkeyword => ?_⟩
  · intro v between u text hfront htext hprev
    have hle := start_le_of_declares ho hfront htext hprev
    refine ⟨fun hkept => visibility_of_declares ho hfront htext hprev ?_, ?_⟩
    · rcases hkept with hbetween | hu
      · exact start_eq_of_between ho hfront htext hbetween hle
      · by_cases hbetween : between = []
        · subst hbetween
          by_contra hdiffer
          obtain ⟨run, -, -, hcontinues, -⟩ :=
            exists_run_of_start_lt ho hfront htext (lt_of_le_of_ne hle hdiffer)
          exact hu hcontinues
        · exact start_eq_of_between ho hfront htext hbetween hle
    · rintro ⟨rfl, hu⟩
      obtain ⟨run, hreturns, hsolid, -, x, rfl⟩ :=
        exists_run_of_start_lt ho hfront htext (start_lt_of_continues ho hfront htext hu)
      refine ⟨⟨run, hreturns.symm⟩, fun hspace => ?_⟩
      -- white space ends the type on the left
      have hnil : run = [] := by
        by_contra hne
        have hends : EndsSolid (x ++ run) := hsolid.endsSolid_append hne x
        rw [EndsSolid, hspace] at hends
        cases hends
      rw [hreturns, hnil, List.nil_append]
  · obtain ⟨v, hv⟩ : ∃ v : Visibility, o.value.returns = v.text := by
      simp only [Visibility.keywords, List.mem_cons, List.not_mem_nil, or_false] at hkeyword
      rcases hkeyword with h | h | h
      · exact ⟨.pub, h⟩
      · exact ⟨.priv, h⟩
      · exact ⟨.prot, h⟩
    obtain ⟨u, text, hfront, htext, hu⟩ := exists_declares_of_returns ho hv
    exact ⟨v, u, text, hv, hfront, htext, hu⟩

/-- Behind an annotation, a method with a return type keeps its visibility, and a constructor does
not. -/
theorem method_visibility_annotated :
    let block :=
      Bytes.ofString "\x7b @In private int f() \x7b\x7d @In private A() \x7b\x7d \x7d"
    let f : Occurrence Method :=
      ⟨6, Bytes.ofString "private int f() \x7b\x7d @In private A() \x7b\x7d \x7d",
        ⟨Bytes.ofString "f", [], Bytes.ofString "int", Bytes.ofString "private"⟩,
        Bytes.ofString "\x7d @In private A() \x7b\x7d \x7d"⟩
    let a : Occurrence Method :=
      ⟨28, Bytes.ofString " private A() \x7b\x7d \x7d",
        ⟨Bytes.ofString "A", [], Bytes.ofString "private", Bytes.ofString "public"⟩,
        Bytes.ofString "\x7d \x7d"⟩
    f ∈ method.occurrences block ∧ a ∈ method.occurrences block ∧
      f.value.visibility = Visibility.priv.text ∧ a.value.returns = Visibility.priv.text := by
  intro block f a
  have hspace : AllSpace [0x20] := List.all_eq_true.mp rfl
  have hnone : AllSpace [] := List.all_eq_true.mp rfl
  have hint : IsTypeText (Bytes.ofString "int") := ⟨by decide, List.all_eq_true.mp rfl⟩
  have hname : Bytes.IsName (Bytes.ofString "f") := ⟨by decide, List.all_eq_true.mp rfl⟩
  have hname' : Bytes.IsName (Bytes.ofString "A") := ⟨by decide, List.all_eq_true.mp rfl⟩
  have hall : method.occurrences block = [f, a] := rfl
  have hf : f ∈ method.occurrences block := hall ▸ List.mem_cons_self
  have ha : a ∈ method.occurrences block := hall ▸ List.mem_cons_of_mem _ List.mem_cons_self
  have htyped : Declares .priv (Bytes.ofString " int") (Bytes.ofString "private int f") :=
    .mk (.type hspace (by decide) hint) (.mk hspace (by decide) hname hnone)
  have huntyped : Declares .priv [] (Bytes.ofString "private A") :=
    .mk .nothing (.mk hspace (by decide) hname' hnone)
  have hcontinues : Continues (block.take 29) :=
    ⟨block.take 28, [0x20], [], rfl, by decide, hspace, List.forall_mem_nil _, rfl⟩
  refine ⟨hf, ha, ?_, ?_⟩
  · have hkept := ((method_visibility block f hf).1 .priv _ (block.take 6) _ rfl htyped rfl).1
    exact (hkept (.inl (by decide))).1
  · have hlost := ((method_visibility block a ha).1 .priv _ (block.take 29) _ rfl huntyped rfl).2
    exact (hlost ⟨rfl, hcontinues⟩).2 rfl

/-- Of a constructor behind an annotation, the keyword is lost: the keyword is its return type, and
its visibility is the default. -/
theorem method_visibility_lost :
    let before := Bytes.ofString "class A \x7b\n    @Inject "
    let text := Bytes.ofString "private A"
    let code := before ++ text ++ Bytes.ofString "() \x7b \x7d\n\x7d\n"
    Declares .priv [] text ∧ Read.wordStart (Bytes.lastAfter none before) = true ∧
      (outline code).classes.map (·.methods) =
        [[⟨Bytes.ofString "A", [], Visibility.priv.text, defaultVisibility⟩]] := by
  intro before text code
  have hspace : AllSpace [0x20] := List.all_eq_true.mp rfl
  have hname : Bytes.IsName (Bytes.ofString "A") := ⟨by decide, List.all_eq_true.mp rfl⟩
  refine ⟨.mk .nothing (.mk hspace (by decide) hname (List.forall_mem_nil _)), rfl, ?_⟩
  decide +kernel

end ClassOutline.Java
