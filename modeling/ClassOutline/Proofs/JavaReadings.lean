import ClassOutline.Proofs.JavaSource
import ClassOutline.Proofs.Text.Fields

/-!
# How a Java method is read

The keyword, `static` and the return type of a method may all be missing, so one text can often be
read in several ways, and `Java.method` settles for the first. Whichever it is, what was read splits
into a *lead* (`Lead`: the keyword, if there is one), a *stem* (`Stem`: `static` and the return
type), a *name part* (`NamePart`), and the parameters behind the parenthesis (`paramsTail`). Nothing
that can be split so goes unread.

## Main results

- `exists_stem_of_method`: what a method that was read splits into
- `exists_method_of_visibility`: at a keyword that begins a word, the keyword is the visibility
- `exists_method_of_boundary`: at any edge of a word, a stem and a name part are read
- `append_part_inj`: the name part, and what stands before it, are determined by the text
-/

namespace ClassOutline.Java

open Bytes (AllSpace NoSpace EndsSolid)

/-- A type: at least one type byte. -/
structure IsTypeText (type : Bytes) : Prop where
  ne_nil : type ≠ []
  isType : ∀ b ∈ type, isTypeByte b = true

/-- White space, a name, and white space that may be missing: what stands in front of the
parenthesis. -/
inductive NamePart (name : Bytes) : Bytes → Prop where
  | mk {gap gap' : Bytes} (hgap : AllSpace gap) (hne : gap ≠ []) (hname : name.IsName)
      (hgap' : AllSpace gap') : NamePart name (gap ++ (name ++ gap'))

/-- What is read behind the opening parenthesis: the parameters, up to the opening brace. -/
def paramsTail (s : Bytes) : Option (Bytes × Bytes) := do
  let (params, s) ← Read.parenthesized (0x28 :: s)
  let s ← Read.byte Block.opening (Read.spaces s)
  return (params, s)

variable {s rest type name params part more : Bytes}

theorem methodTail_part (hpart : NamePart name part)
    (hmore : paramsTail more = some (params, rest)) :
    methodTail (part ++ 0x28 :: more) = some ((name, params), rest) := by
  obtain @⟨gap, gap', hgap, hne, hname, hgap'⟩ := hpart
  rw [List.append_assoc, List.append_assoc]
  have hsp := Read.spaces1_append hne hgap (hname.head_isSpace (gap' ++ 0x28 :: more))
  have hend : (gap' ++ 0x28 :: more).head?.any Bytes.isWord = false := by
    by_cases hnil : gap' = []
    · rw [hnil]
      rfl
    · exact hgap'.head?_append_any hnil (fun _ => Bytes.isSpace_of_isWord) _
  have hword := Read.word_append hname.1 hname.2 hend
  have hparen : Read.spaces (gap' ++ 0x28 :: more) = 0x28 :: more :=
    Read.dropWhile_append_stop hgap' rfl
  simp only [paramsTail, Option.bind_eq_bind, Option.bind_eq_some_iff, Option.pure_def,
    Option.some.injEq, Prod.mk.injEq, Prod.exists] at hmore
  obtain ⟨params, t, hparams, t', hbrace, rfl, rfl⟩ := hmore
  simp [methodTail, Read.signature, hsp, hword, hparen, hparams, hbrace]

theorem exists_part_of_methodTail (h : methodTail s = some ((name, params), rest)) :
    ∃ part more, s = part ++ 0x28 :: more ∧ NamePart name part ∧
      paramsTail more = some (params, rest) := by
  simp only [methodTail, Read.signature, Option.bind_eq_bind, Option.bind_eq_some_iff,
    Option.pure_def, Option.some.injEq, Prod.mk.injEq, Prod.exists] at h
  obtain ⟨t, hsp, _, _, t', ⟨w, u, hword, p, v, hparams, ⟨rfl, rfl⟩, rfl⟩, b, hbrace, ⟨rfl, rfl⟩,
    rfl⟩ := h
  obtain ⟨gap, rfl, hne, hgap⟩ := Read.spaces1_split hsp
  obtain ⟨rfl, hname, -⟩ := Read.word_eq_some hword
  obtain ⟨gap', hsplit, hgap'⟩ := Read.spaces_split u
  obtain ⟨hopen, -⟩ := Read.parenthesized_eq_some hparams
  refine ⟨gap ++ (w ++ gap'), p ++ 0x29 :: v, ?_, ⟨hgap, hne, hname, hgap'⟩, ?_⟩
  · rw [hsplit, hopen]
    simp
  · rw [hopen] at hparams
    simp [paramsTail, hparams, hbrace]

/-! ## Readings -/

/-- What a method may read between its visibility and the white space in front of its name, and the
return type that it takes from that. -/
inductive Stem : (type : Bytes) → Bytes → Prop where
  | bare : Stem [] []
  | static {gap : Bytes} (hgap : AllSpace gap) : Stem [] (gap ++ Bytes.ofString "static")
  | typed {gap type : Bytes} (hgap : AllSpace gap) (htype : IsTypeText type) :
      Stem type (gap ++ type)
  | staticTyped {gap gap' type : Bytes} (hgap : AllSpace gap) (hgap' : AllSpace gap')
      (hne : gap' ≠ []) (htype : IsTypeText type) :
      Stem type (gap ++ (Bytes.ofString "static" ++ (gap' ++ type)))

variable {stem : Bytes}

theorem exists_type_of_typedTail (h : typedTail s = some ((type, name, params), rest)) :
    ∃ part more, s = type ++ (part ++ 0x28 :: more) ∧ IsTypeText type ∧ NamePart name part ∧
      paramsTail more = some (params, rest) := by
  simp only [typedTail, Option.bind_eq_bind, Option.bind_eq_some_iff, Option.pure_def,
    Option.some.injEq, Prod.mk.injEq, Prod.exists] at h
  obtain ⟨type, t, htype, name, params, t', htail, ⟨rfl, rfl, rfl⟩, rfl⟩ := h
  obtain ⟨rfl, hne, hall⟩ := Read.run1_eq_some htype
  obtain ⟨part, more, rfl, hpart, hmore⟩ := exists_part_of_methodTail htail
  exact ⟨part, more, rfl, ⟨hne, hall⟩, hpart, hmore⟩

theorem exists_part_of_untypedTail (h : untypedTail s = some ((type, name, params), rest)) :
    type = [] ∧ ∃ part more, s = part ++ 0x28 :: more ∧ NamePart name part ∧
      paramsTail more = some (params, rest) := by
  simp only [untypedTail, Option.bind_eq_bind, Option.bind_eq_some_iff, Option.pure_def,
    Option.some.injEq, Prod.mk.injEq, Prod.exists] at h
  obtain ⟨name, params, t', htail, ⟨rfl, rfl, rfl⟩, rfl⟩ := h
  exact ⟨rfl, exists_part_of_methodTail htail⟩

/-- What is read of a method behind its visibility splits into a stem, a name part and the rest. -/
theorem exists_stem_of_methodBody (h : methodBody s = some ((type, name, params), rest)) :
    ∃ stem part more, s = stem ++ (part ++ 0x28 :: more) ∧ Stem type stem ∧ NamePart name part ∧
      paramsTail more = some (params, rest) := by
  obtain ⟨gap, hsplit, hgap⟩ := Read.spaces_split s
  simp only [methodBody, Option.orElse_eq_orElse, Option.orElse_eq_or, Option.or_eq_some_iff,
    Option.bind_eq_bind, Option.bind_eq_some_iff, Option.guard_eq_some'] at h
  -- one case for each of the four readings
  rcases h with ⟨t, hlit, t', hsp, htail⟩ |
    ⟨-, ⟨t, hlit, -, hspace, htail⟩ | ⟨-, htail | ⟨-, htail⟩⟩⟩
  · obtain ⟨gap', rfl, hne, hgap'⟩ := Read.spaces1_split hsp
    obtain ⟨part, more, rfl, htype, hpart, hmore⟩ := exists_type_of_typedTail htail
    refine ⟨_, part, more, ?_, .staticTyped hgap hgap' hne htype, hpart, hmore⟩
    rw [hsplit, Read.literal_eq_some hlit]
    simp
  · cases t with
    | nil => cases hspace
    | cons b t =>
      obtain ⟨rfl, part, more, ht, hpart, hmore⟩ := exists_part_of_untypedTail htail
      obtain @⟨gap', gap'', hgap', hne, hname, hgap''⟩ := hpart
      have hb : AllSpace (b :: gap') := List.forall_mem_cons.mpr ⟨hspace, hgap'⟩
      refine ⟨_, (b :: gap') ++ (name ++ gap''), more, ?_, .static hgap,
        ⟨hb, List.cons_ne_nil _ _, hname, hgap''⟩, hmore⟩
      have ht' : t = gap' ++ (name ++ gap'') ++ 0x28 :: more := ht
      rw [hsplit, Read.literal_eq_some hlit, ht']
      simp
  · obtain ⟨part, more, hstart, htype, hpart, hmore⟩ := exists_type_of_typedTail htail
    refine ⟨_, part, more, ?_, .typed hgap htype, hpart, hmore⟩
    rw [hsplit, hstart]
    simp
  · obtain ⟨rfl, part, more, rfl, hpart, hmore⟩ := exists_part_of_untypedTail htail
    exact ⟨[], part, more, rfl, .bare, hpart, hmore⟩

theorem IsTypeText.noSpace (h : IsTypeText type) : NoSpace type :=
  fun b hb => TypeName.isSpace_of_isTypeByte (h.isType b hb)

theorem isName_static : Bytes.IsName (Bytes.ofString "static") :=
  ⟨by decide, List.all_eq_true.mp rfl⟩

theorem isName_text (v : Visibility) : v.text.IsName := ⟨v.text_ne_nil, v.isWord_text⟩

/-- A name may stand for a type. -/
theorem isTypeText_of_isName (h : Bytes.IsName name) : IsTypeText name :=
  ⟨h.1, fun b hb => by simp [isTypeByte, h.2 b hb]⟩

theorem isTypeText_static : IsTypeText (Bytes.ofString "static") :=
  isTypeText_of_isName isName_static

theorem typedTail_part (htype : IsTypeText type) (hpart : NamePart name part)
    (hmore : paramsTail more = some (params, rest)) :
    typedTail (type ++ (part ++ 0x28 :: more)) = some ((type, name, params), rest) := by
  have hend : (part ++ 0x28 :: more).head?.any isTypeByte = false := by
    obtain ⟨hgap, hne, -, -⟩ := hpart
    rw [List.append_assoc]
    exact hgap.head?_append_any hne (fun _ => TypeName.isSpace_of_isTypeByte) _
  have hrun : typeText (type ++ (part ++ 0x28 :: more)) = some (type, part ++ 0x28 :: more) :=
    Read.run1_append htype.ne_nil htype.isType hend
  simp [typedTail, hrun, methodTail_part hpart hmore]

/-- Where there is a type behind some white space, something is read. -/
theorem exists_methodBody_of_type {gap : Bytes} (hgap : AllSpace gap) (htype : IsTypeText type)
    (hpart : NamePart name part) (hmore : paramsTail more = some (params, rest)) :
    ∃ r, methodBody (gap ++ (type ++ (part ++ 0x28 :: more))) = some r := by
  have hstart : Read.spaces (gap ++ (type ++ (part ++ 0x28 :: more))) =
      type ++ (part ++ 0x28 :: more) :=
    Read.dropWhile_append_stop hgap (htype.noSpace.head?_append htype.ne_nil _)
  apply Option.isSome_iff_exists.mp
  simp only [methodBody, Option.orElse_eq_orElse, Option.orElse_eq_or, hstart,
    typedTail_part htype hpart hmore, Option.isSome_or, Option.isSome_some, Bool.true_or,
    Bool.or_true]

/-- In front of a name part and its parameters, every stem is read in some way. -/
theorem exists_methodBody (hstem : Stem type stem) (hpart : NamePart name part)
    (hmore : paramsTail more = some (params, rest)) :
    ∃ r, methodBody (stem ++ (part ++ 0x28 :: more)) = some r := by
  -- the reading that fits the stem may not be the first to succeed, but then another one does
  cases hstem with
  | bare =>
    have huntyped : untypedTail (part ++ 0x28 :: more) = some (([], name, params), rest) := by
      simp [untypedTail, methodTail_part hpart hmore]
    apply Option.isSome_iff_exists.mp
    simp only [methodBody, Option.orElse_eq_orElse, Option.orElse_eq_or, List.nil_append, huntyped,
      Option.isSome_or, Option.isSome_some, Bool.or_true]
  | static hgap =>
    -- the keyword is a type as well
    rw [List.append_assoc]
    exact exists_methodBody_of_type hgap isTypeText_static hpart hmore
  | typed hgap htype =>
    rw [List.append_assoc]
    exact exists_methodBody_of_type hgap htype hpart hmore
  | @staticTyped gap gap' type hgap hgap' hne htype =>
    have hstart : Read.spaces (gap ++ (Bytes.ofString "static" ++ (gap' ++ (type ++
        (part ++ 0x28 :: more))))) =
          Bytes.ofString "static" ++ (gap' ++ (type ++ (part ++ 0x28 :: more))) :=
      Read.dropWhile_append_stop hgap rfl
    have hsp := Read.spaces1_append hne hgap'
      (htype.noSpace.head?_append htype.ne_nil (part ++ 0x28 :: more))
    apply Option.isSome_iff_exists.mp
    simp only [methodBody, Option.orElse_eq_orElse, Option.orElse_eq_or, List.append_assoc, hstart,
      Read.literal_append, hsp, Option.bind_eq_bind, Option.bind_some,
      typedTail_part htype hpart hmore, Option.isSome_or, Option.isSome_some, Bool.true_or]

/-- What is read in front of the stem, and the visibility that it gives: a keyword gives itself, and
without one there is the default. -/
inductive Lead : (visibility : Bytes) → Bytes → Prop where
  | declared (v : Visibility) : Lead v.text v.text
  | undeclared : Lead defaultVisibility []

/-- A method that was read splits into a lead, a stem, a name part and the rest. -/
theorem exists_stem_of_method {prev : Option UInt8} {m : Method}
    (h : method prev s = some (m, rest)) :
    ∃ lead stem part more params, s = lead ++ (stem ++ (part ++ 0x28 :: more)) ∧
      Lead m.visibility lead ∧ Stem m.returns stem ∧ NamePart m.name part ∧
      paramsTail more = some (params, rest) := by
  simp only [method, Option.orElse_eq_orElse, Option.orElse_eq_or, Option.or_eq_some_iff,
    Option.bind_eq_bind, Option.bind_eq_some_iff, Option.pure_def, Option.some.injEq,
    Prod.mk.injEq, Prod.exists] at h
  obtain ⟨-, -, ⟨w, t, hvis, type, name, params, t', hbody, rfl, rfl⟩ |
    ⟨-, type, name, params, t', hbody, rfl, rfl⟩⟩ := h
  · obtain ⟨v, rfl, rfl⟩ := Read.visibility_eq_some hvis
    obtain ⟨stem, part, more, rfl, hstem, hpart, hmore⟩ := exists_stem_of_methodBody hbody
    exact ⟨v.text, stem, part, more, params, rfl, .declared v, hstem, hpart, hmore⟩
  · obtain ⟨stem, part, more, rfl, hstem, hpart, hmore⟩ := exists_stem_of_methodBody hbody
    exact ⟨[], stem, part, more, params, rfl, .undeclared, hstem, hpart, hmore⟩

/-- At a keyword that begins a word, the keyword is read, and then the stem behind it. -/
theorem exists_method_of_visibility {prev : Option UInt8} (hprev : Read.wordStart prev = true)
    (v : Visibility) (hstem : Stem type stem) (hpart : NamePart name part)
    (hmore : paramsTail more = some (params, rest)) :
    ∃ r, method prev (v.text ++ (stem ++ (part ++ 0x28 :: more))) = some r ∧
      r.1.visibility = v.text ∧ ∃ stem' part' more' params',
        stem ++ (part ++ 0x28 :: more) = stem' ++ (part' ++ 0x28 :: more') ∧
        Stem r.1.returns stem' ∧ NamePart r.1.name part' ∧
        paramsTail more' = some (params', r.2) := by
  obtain ⟨⟨⟨type', name', params'⟩, rest'⟩, hbody⟩ := exists_methodBody hstem hpart hmore
  refine ⟨(⟨name', params'.collapse, type', v.text⟩, rest'), ?_, rfl, ?_⟩
  · simp [method, Read.wordBoundary_visibility hprev, Read.visibility_append, hbody]
  · obtain ⟨stem', part', more', hsplit, hstem', hpart', hmore'⟩ := exists_stem_of_methodBody hbody
    exact ⟨stem', part', more', params', hsplit, hstem', hpart', hmore'⟩

/-- At the edge of a word, a stem is read. -/
theorem exists_method_of_boundary {prev : Option UInt8} (hstem : Stem type stem)
    (hpart : NamePart name part) (hmore : paramsTail more = some (params, rest))
    (hprev : Read.wordBoundary prev (stem ++ (part ++ 0x28 :: more)) = true) :
    ∃ r, method prev (stem ++ (part ++ 0x28 :: more)) = some r := by
  obtain ⟨r, hbody⟩ := exists_methodBody hstem hpart hmore
  apply Option.isSome_iff_exists.mp
  simp only [method, hprev, hbody, Read.guard_true, Option.bind_eq_bind, Option.bind_some,
    Option.orElse_eq_orElse, Option.orElse_eq_or, Option.isSome_or, Option.pure_def,
    Option.isSome_some, Bool.or_true]

theorem Stem.isType (h : Stem type stem) : ∀ b ∈ type, isTypeByte b = true := by
  cases h with
  | bare | static _ => exact List.forall_mem_nil _
  | typed _ htype | staticTyped _ _ _ htype => exact htype.isType

theorem Stem.eq_nil (h : Stem type stem) (hnil : stem = []) : type = [] := by
  cases h with
  | bare | static _ => rfl
  | typed _ _ | staticTyped _ _ _ _ =>
    simp only [List.append_eq_nil_iff] at hnil
    simp [hnil]

/-! ## The bytes of a head -/

open Read (isHeadByte)

theorem isHeadByte_of_allSpace {g : Bytes} (h : AllSpace g) : ∀ b ∈ g, isHeadByte b = true :=
  fun b hb => Read.isHeadByte_of_isSpace (h b hb)

theorem IsTypeText.isHeadByte (h : IsTypeText type) : ∀ b ∈ type, isHeadByte b = true :=
  fun b hb => Read.isHeadByte_of_isTypeByte (h.isType b hb)

theorem NamePart.isHeadByte (h : NamePart name part) : ∀ b ∈ part, isHeadByte b = true := by
  obtain ⟨hgap, -, hname, hgap'⟩ := h
  refine List.forall_mem_append.mpr ⟨isHeadByte_of_allSpace hgap, List.forall_mem_append.mpr
    ⟨fun b hb => Read.isHeadByte_of_isWord (hname.2 b hb), isHeadByte_of_allSpace hgap'⟩⟩

theorem Stem.isHeadByte (h : Stem type stem) : ∀ b ∈ stem, isHeadByte b = true := by
  cases h with
  | bare => exact List.forall_mem_nil _
  | static hgap =>
    exact List.forall_mem_append.mpr ⟨isHeadByte_of_allSpace hgap, isTypeText_static.isHeadByte⟩
  | typed hgap htype =>
    exact List.forall_mem_append.mpr ⟨isHeadByte_of_allSpace hgap, htype.isHeadByte⟩
  | staticTyped hgap hgap' _ htype =>
    exact List.forall_mem_append.mpr ⟨isHeadByte_of_allSpace hgap, List.forall_mem_append.mpr
      ⟨isTypeText_static.isHeadByte, List.forall_mem_append.mpr
        ⟨isHeadByte_of_allSpace hgap', htype.isHeadByte⟩⟩⟩

theorem isHeadByte_text (v : Visibility) : ∀ b ∈ v.text, isHeadByte b = true :=
  fun b hb => Read.isHeadByte_of_isWord (v.isWord_text b hb)

theorem Lead.isHeadByte {visibility lead : Bytes} (h : Lead visibility lead) :
    ∀ b ∈ lead, isHeadByte b = true := by
  cases h with
  | declared v => exact isHeadByte_text v
  | undeclared => exact List.forall_mem_nil _

theorem not_mem_of_isHeadByte {u : Bytes} {c : UInt8} (h : ∀ b ∈ u, isHeadByte b = true)
    (hc : isHeadByte c = false) : c ∉ u := by
  intro hmem
  rw [h c hmem] at hc
  cases hc

/-- A head ends at the first parenthesis. -/
theorem append_paren_inj {a a' m m' : Bytes} (ha : ∀ b ∈ a, isHeadByte b = true)
    (ha' : ∀ b ∈ a', isHeadByte b = true) (h : a ++ 0x28 :: m = a' ++ 0x28 :: m') : a = a' := by
  have hrun := congrArg (List.takeWhile (· != 0x28)) h
  rwa [Read.takeWhile_append_stop (Read.bne_of_not_mem (not_mem_of_isHeadByte ha rfl)) rfl,
    Read.takeWhile_append_stop (Read.bne_of_not_mem (not_mem_of_isHeadByte ha' rfl)) rfl] at hrun

/-! ## What ends in front of the name -/

theorem Lead.noSpace {visibility lead : Bytes} (h : Lead visibility lead) : NoSpace lead := by
  cases h with
  | declared v => exact (isName_text v).noSpace
  | undeclared => exact List.forall_mem_nil _

theorem Lead.endsSolid {visibility lead : Bytes} (h : Lead visibility lead) : EndsSolid lead := by
  cases h with
  | declared v => exact (isName_text v).noSpace.endsSolid_append v.text_ne_nil []
  | undeclared => rfl

/-- Behind a lead, a stem ends in a byte of a type, if it is not empty. -/
theorem Stem.endsSolid_append {visibility lead : Bytes} (hlead : Lead visibility lead)
    (h : Stem type stem) : EndsSolid (lead ++ stem) := by
  cases h with
  | bare =>
    rw [List.append_nil]
    exact hlead.endsSolid
  | @static gap _ =>
    rw [← List.append_assoc]
    exact isTypeText_static.noSpace.endsSolid_append isTypeText_static.ne_nil _
  | @typed gap _ _ htype =>
    rw [← List.append_assoc]
    exact htype.noSpace.endsSolid_append htype.ne_nil _
  | @staticTyped gap gap' _ _ _ _ htype =>
    rw [← List.append_assoc, ← List.append_assoc, ← List.append_assoc]
    exact htype.noSpace.endsSolid_append htype.ne_nil _

/-- The name, with the white space around it, and what stands before it are determined. -/
theorem append_part_inj {x x' name' part' : Bytes} (hx : EndsSolid x) (hx' : EndsSolid x')
    (hpart : NamePart name part) (hpart' : NamePart name' part') (h : x ++ part = x' ++ part') :
    x = x' ∧ part = part' := by
  obtain @⟨g, e, hg, hne, hname, he⟩ := hpart
  obtain @⟨g', e', hg', hne', hname', he'⟩ := hpart'
  have hends : EndsSolid (x ++ (g ++ name)) := by
    rw [← List.append_assoc]
    exact hname.noSpace.endsSolid_append hname.1 _
  have hends' : EndsSolid (x' ++ (g' ++ name')) := by
    rw [← List.append_assoc]
    exact hname'.noSpace.endsSolid_append hname'.1 _
  obtain ⟨hfield, rfl⟩ := Bytes.append_allSpace_inj hends hends' he he' (by simpa using h)
  obtain ⟨rfl, rfl, rfl⟩ :=
    Bytes.append_field_inj hx hx' hg hg' hne hne' hname.noSpace hname'.noSpace hfield
  exact ⟨rfl, rfl⟩

end ClassOutline.Java
