import ClassOutline.Proofs.BlockLayout
import ClassOutline.Proofs.EdgeInvariant
import ClassOutline.Proofs.PythonForms
import ClassOutline.Proofs.Text.ListEntries

/-!
# Outlines are well formed

Whatever text an outline is taken from, UTF-8 or not, the texts in it have a fixed shape: names are
words, visibilities are keywords, parameter lists are on one line, the entries of a list are trimmed
and have no comma in them. What differs from language to language is collected in a `Lexicon`.

The shape of a piece is a matter of the form that read it. Each form gets one law, read off its own
definition; `Form.forall_mem_values` carries it over to everything that a search finds.

## Main results

- `Bytes.collapse_isParams`: what becomes of a parenthesised text
- `Java.outline_wellFormed`, `Php.outline_wellFormed`, `Python.outline_wellFormed`
- `outlines_wellFormed`: the three of them, and what any registry of them finds together
-/

namespace ClassOutline

/-! ## Shapes of text -/

namespace Bytes

/-- A parameter list as outlines show it. -/
structure IsParams (s : Bytes) : Prop where
  no_paren : (0x29 : UInt8) ∉ s
  /-- Neither a tab nor the end of a line. -/
  no_break : ∀ b ∈ ([9, 10, 12, 13] : Bytes), b ∉ s
  no_gap : ¬[0x20, 0x20] <:+: s
  trimmed : s.IsTrimmed
  collapsed : s.collapse = s

theorem collapse_isParams {s : Bytes} (h : (0x29 : UInt8) ∉ s) : s.collapse.IsParams where
  no_paren hmem := h (mem_of_mem_collapse (by decide) hmem)
  no_break := s.break_not_mem_collapse
  no_gap := s.collapse_isFolded.no_gap
  trimmed := s.collapse_isTrimmed
  collapsed := s.collapse_collapse

end Bytes

/-! ## What a language allows -/

/-- The shapes that differ between languages. -/
structure Lexicon where
  attributeName : Bytes → Prop
  attributeType : Bytes → Prop
  returns : Bytes → Prop
  /-- The parent of a class and its interfaces, which are entries of a list in any case. -/
  heritage : Option Bytes → List Bytes → Prop

namespace Lexicon

def java : Lexicon where
  attributeName := Bytes.IsName
  attributeType s := s ≠ [] ∧ ∀ b ∈ s, Java.isTypeByte b = true
  returns s := ∀ b ∈ s, Java.isTypeByte b = true
  heritage _ interfaces := ∀ i ∈ interfaces, Block.opening ∉ i

def php : Lexicon where
  attributeName s := ∃ w : Bytes, s = 0x24 :: w ∧ w.IsName
  attributeType s := s = []
  returns s := s = []
  heritage _ interfaces := interfaces = []

def python : Lexicon where
  attributeName := Bytes.IsName
  attributeType s := s = []
  returns s := s = []
  heritage parent interfaces :=
    (∀ i ∈ interfaces, (0x29 : UInt8) ∉ i) ∧ (interfaces ≠ [] → parent ≠ none)

end Lexicon

structure Attribute.WellFormed (l : Lexicon) (a : Attribute) : Prop where
  name : l.attributeName a.name
  type : l.attributeType a.type
  visibility : a.visibility ∈ Visibility.keywords

structure Method.WellFormed (l : Lexicon) (m : Method) : Prop where
  name : m.name.IsName
  params : m.params.IsParams
  returns : l.returns m.returns
  visibility : m.visibility ∈ Visibility.keywords

structure FunctionInfo.WellFormed (f : FunctionInfo) : Prop where
  name : f.name.IsName
  params : f.params.IsParams
  returns : f.returns = []

structure ClassInfo.WellFormed (l : Lexicon) (c : ClassInfo) : Prop where
  name : c.name.IsName
  attributes : ∀ a ∈ c.attributes, a.WellFormed l
  methods : ∀ m ∈ c.methods, m.WellFormed l
  parent : c.parent ≠ some []
  interfaces : ∀ i ∈ c.interfaces, i.IsItem
  heritage : l.heritage c.parent c.interfaces

structure Outline.WellFormed (l : Lexicon) (o : Outline) : Prop where
  classes : ∀ c ∈ o.classes, c.WellFormed l
  functions : ∀ f ∈ o.functions, f.WellFormed

theorem Outline.ofParts_wellFormed {l : Lexicon} {classes : List ClassInfo}
    {functions : List FunctionInfo} (hclasses : ∀ c ∈ classes, c.WellFormed l)
    (hfunctions : ∀ f ∈ functions, f.WellFormed) : (ofParts classes functions).WellFormed l := by
  rw [ofParts_eq]
  exact ⟨hclasses, hfunctions⟩

/-! ## Parts that languages share -/

theorem defaultVisibility_mem : defaultVisibility ∈ Visibility.keywords := Visibility.pub.text_mem

theorem Read.visibility_mem {s w t : Bytes} (h : visibility s = some (w, t)) :
    w ∈ Visibility.keywords := by
  obtain ⟨v, rfl, -⟩ := visibility_eq_some h
  exact v.text_mem

/-- The parent that a header names is a word. -/
theorem Read.parent_ne_nil (header : Bytes) :
    (parent.first? header).map Occurrence.value ≠ some [] := by
  intro h
  obtain ⟨o, ho, hvalue⟩ := Option.map_eq_some_iff.mp h
  have hname : o.value.IsName := by
    refine Form.forall_mem_first? ?_ ho
    intro prev s value rest hread
    simp only [parent, Option.bind_eq_bind, Option.bind_eq_some_iff] at hread
    obtain ⟨-, -, t, -, t', -, hword⟩ := hread
    exact (word_eq_some hword).2.1
  exact hname.1 hvalue

/-- The block of a class is found where its name was read. -/
theorem ClassBlock.name_isName {code : Bytes} {b : ClassBlock}
    (h : b ∈ all declaration code) : b.name.IsName := by
  simp only [all, List.mem_filterMap] at h
  obtain ⟨o, ho, hread⟩ := h
  obtain ⟨-, name, -, -, hvalue, hname, -⟩ :=
    declaration_eq_some (Form.inText_of_mem_occurrences ho).read
  simp only [read?, hvalue, Option.getD_some, Option.map_eq_some_iff] at hread
  obtain ⟨n, -, rfl⟩ := hread
  exact hname

/-! ## Java -/

namespace Java

theorem fieldTail_eq_some {s type name t : Bytes} (h : fieldTail s = some ((type, name), t)) :
    (type ≠ [] ∧ ∀ b ∈ type, isTypeByte b = true) ∧ name.IsName := by
  simp only [fieldTail, Option.bind_eq_bind, Option.bind_eq_some_iff, Option.pure_def,
    Option.some.injEq, Prod.mk.injEq, Prod.exists] at h
  obtain ⟨type, t₁, htype, t₂, -, name, t₃, hword, t₄, -, ⟨rfl, rfl⟩, -⟩ := h
  exact ⟨(Read.run1_eq_some htype).2, (Read.word_eq_some hword).2.1⟩

theorem field_wellFormed {prev : Option UInt8} {s rest : Bytes} {a : Attribute}
    (h : field prev s = some (a, rest)) : a.WellFormed .java := by
  simp only [field, Option.bind_eq_bind, Option.bind_eq_some_iff, Option.pure_def,
    Option.orElse_eq_orElse, Option.orElse_eq_or, Option.or_eq_some_iff,
    Option.some.injEq, Prod.mk.injEq, Prod.exists] at h
  obtain ⟨-, -, vis, t, hvis, t', -, type, name, t'', htail, rfl, -⟩ := h
  -- with `static` or without, the rest is the same
  have htail : ∃ u v, fieldTail u = some ((type, name), v) := by
    rcases htail with ⟨u, -, v, -, htail⟩ | ⟨-, htail⟩
    · exact ⟨_, _, htail⟩
    · exact ⟨_, _, htail⟩
  obtain ⟨u, v, htail⟩ := htail
  obtain ⟨htype, hname⟩ := fieldTail_eq_some htail
  exact ⟨hname, htype, Read.visibility_mem hvis⟩

theorem methodTail_eq_some {s name params t : Bytes}
    (h : methodTail s = some ((name, params), t)) : name.IsName ∧ (0x29 : UInt8) ∉ params := by
  simp only [methodTail, Option.bind_eq_bind, Option.bind_eq_some_iff, Option.pure_def,
    Option.some.injEq, Prod.mk.injEq, Prod.exists] at h
  obtain ⟨t₁, -, name, params, t₂, hsig, t₃, -, ⟨rfl, rfl⟩, -⟩ := h
  obtain ⟨hname, hparams, -⟩ := Read.signature_eq_some hsig
  exact ⟨hname, hparams⟩

/-- What was read of a method behind its visibility: return type, name and parameters. -/
structure HeadRead (type name params : Bytes) : Prop where
  type_bytes : ∀ b ∈ type, isTypeByte b = true
  name_isName : name.IsName
  params_plain : (0x29 : UInt8) ∉ params

theorem typedTail_eq_some {s type name params t : Bytes}
    (h : typedTail s = some ((type, name, params), t)) : HeadRead type name params := by
  simp only [typedTail, Option.bind_eq_bind, Option.bind_eq_some_iff, Option.pure_def,
    Option.some.injEq, Prod.mk.injEq, Prod.exists] at h
  obtain ⟨type, t₁, htype, name, params, t₂, htail, ⟨rfl, rfl, rfl⟩, -⟩ := h
  obtain ⟨hname, hparams⟩ := methodTail_eq_some htail
  exact ⟨(Read.run1_eq_some htype).2.2, hname, hparams⟩

theorem untypedTail_eq_some {s type name params t : Bytes}
    (h : untypedTail s = some ((type, name, params), t)) : HeadRead type name params := by
  simp only [untypedTail, Option.bind_eq_bind, Option.bind_eq_some_iff, Option.pure_def,
    Option.some.injEq, Prod.mk.injEq, Prod.exists] at h
  obtain ⟨name, params, t₂, htail, ⟨rfl, rfl, rfl⟩, -⟩ := h
  obtain ⟨hname, hparams⟩ := methodTail_eq_some htail
  exact ⟨List.forall_mem_nil _, hname, hparams⟩

theorem methodBody_eq_some {s type name params t : Bytes}
    (h : methodBody s = some ((type, name, params), t)) : HeadRead type name params := by
  simp only [methodBody, Option.orElse_eq_orElse, Option.orElse_eq_or, Option.or_eq_some_iff,
    Option.bind_eq_bind, Option.bind_eq_some_iff] at h
  -- one case for each of the four readings
  rcases h with ⟨u, -, v, -, htail⟩ | ⟨-, ⟨u, -, -, -, htail⟩ | ⟨-, htail | ⟨-, htail⟩⟩⟩
  · exact typedTail_eq_some htail
  · exact untypedTail_eq_some htail
  · exact typedTail_eq_some htail
  · exact untypedTail_eq_some htail

theorem method_wellFormed {prev : Option UInt8} {s rest : Bytes} {m : Method}
    (h : method prev s = some (m, rest)) : m.WellFormed .java := by
  simp only [method, Option.bind_eq_bind, Option.bind_eq_some_iff, Option.pure_def,
    Option.orElse_eq_orElse, Option.orElse_eq_or, Option.or_eq_some_iff,
    Option.some.injEq, Prod.mk.injEq, Prod.exists] at h
  obtain ⟨-, -, ⟨vis, t, hvis, type, name, params, t', hbody, rfl, -⟩ |
    ⟨-, type, name, params, t', hbody, rfl, -⟩⟩ := h
  · have hread := methodBody_eq_some hbody
    exact ⟨hread.name_isName, Bytes.collapse_isParams hread.params_plain, hread.type_bytes,
      Read.visibility_mem hvis⟩
  · have hread := methodBody_eq_some hbody
    exact ⟨hread.name_isName, Bytes.collapse_isParams hread.params_plain, hread.type_bytes,
      defaultVisibility_mem⟩

theorem interfacesForm_plain {prev : Option UInt8} {s value rest : Bytes}
    (h : interfacesForm prev s = some (value, rest)) : Block.opening ∉ value := by
  simp only [interfacesForm, Option.bind_eq_bind, Option.bind_eq_some_iff, Option.pure_def,
    Option.some.injEq, Prod.mk.injEq] at h
  obtain ⟨-, -, t, -, t', -, rfl, -⟩ := h
  intro hmem
  simpa using Read.of_mem_takeWhile hmem

theorem interfaces_ofBlock {b : ClassBlock} {i : Bytes} (h : i ∈ (ofBlock b).interfaces) :
    i.IsItem ∧ Block.opening ∉ i := by
  simp only [ofBlock] at h
  cases hfirst : interfacesForm.first? b.header with
  | none =>
    rw [hfirst] at h
    cases h
  | some o =>
    rw [hfirst] at h
    have hplain : Block.opening ∉ o.value :=
      Form.forall_mem_first? (fun _ _ _ _ => interfacesForm_plain) hfirst
    exact ⟨Bytes.listItems_isItem h, Bytes.not_mem_listItems hplain h⟩

theorem outline_wellFormed (code : Bytes) : (outline code).WellFormed .java := by
  refine Outline.ofParts_wellFormed ?_ (List.forall_mem_nil _)
  intro c hc
  obtain ⟨b, hb, rfl⟩ := List.mem_map.mp hc
  exact {
    name := ClassBlock.name_isName hb
    attributes := Form.forall_mem_values (fun _ _ _ _ => field_wellFormed) b.body
    methods := Form.forall_mem_values (fun _ _ _ _ => method_wellFormed) b.body
    parent := Read.parent_ne_nil b.header
    interfaces := fun i hi => (interfaces_ofBlock hi).1
    heritage := fun i hi => (interfaces_ofBlock hi).2 }

end Java

/-! ## PHP -/

namespace Php

theorem functionHead_eq_some {s name params t : Bytes}
    (h : functionHead s = some ((name, params), t)) : name.IsName ∧ (0x29 : UInt8) ∉ params := by
  simp only [functionHead, Option.bind_eq_bind, Option.bind_eq_some_iff] at h
  obtain ⟨t₁, -, t₂, -, hsig⟩ := h
  obtain ⟨hname, hparams, -⟩ := Read.signature_eq_some hsig
  exact ⟨hname, hparams⟩

theorem property_wellFormed {prev : Option UInt8} {s rest : Bytes} {a : Attribute}
    (h : property prev s = some (a, rest)) : a.WellFormed .php := by
  simp only [property, Option.bind_eq_bind, Option.bind_eq_some_iff, Option.pure_def,
    Option.some.injEq, Prod.mk.injEq, Prod.exists] at h
  obtain ⟨-, -, vis, t, hvis, t₁, -, t₂, -, name, t₃, hword, t₄, -, rfl, -⟩ := h
  exact ⟨⟨name, rfl, (Read.word_eq_some hword).2.1⟩, rfl, Read.visibility_mem hvis⟩

theorem method_wellFormed {prev : Option UInt8} {s rest : Bytes} {m : Method}
    (h : method prev s = some (m, rest)) : m.WellFormed .php := by
  simp only [method, Option.bind_eq_bind, Option.bind_eq_some_iff, Option.pure_def,
    Option.some.injEq, Prod.mk.injEq, Prod.exists] at h
  obtain ⟨-, -, name, params, t, hhead, rfl, -⟩ := h
  obtain ⟨hname, hparams⟩ := functionHead_eq_some hhead
  refine ⟨hname, Bytes.collapse_isParams hparams, rfl, ?_⟩
  cases hvis : Read.visibility s with
  | none => exact defaultVisibility_mem
  | some r => exact Read.visibility_mem hvis

theorem function_wellFormed {prev : Option UInt8} {s rest : Bytes} {f : FunctionInfo}
    (h : function prev s = some (f, rest)) : f.WellFormed := by
  simp only [function, Option.bind_eq_bind, Option.bind_eq_some_iff, Option.pure_def,
    Option.some.injEq, Prod.mk.injEq, Prod.exists] at h
  obtain ⟨-, -, name, params, t, hhead, rfl, -⟩ := h
  obtain ⟨hname, hparams⟩ := functionHead_eq_some hhead
  exact ⟨hname, Bytes.collapse_isParams hparams, rfl⟩

theorem outline_wellFormed (code : Bytes) : (outline code).WellFormed .php := by
  refine Outline.ofParts_wellFormed ?_
    (Form.forall_mem_values (fun _ _ _ _ => function_wellFormed) code)
  intro c hc
  obtain ⟨b, hb, rfl⟩ := List.mem_map.mp hc
  exact {
    name := ClassBlock.name_isName hb
    attributes := Form.forall_mem_values (fun _ _ _ _ => property_wellFormed) b.body
    methods := Form.forall_mem_values (fun _ _ _ _ => method_wellFormed) b.body
    parent := Read.parent_ne_nil b.header
    interfaces := List.forall_mem_nil _
    heritage := rfl }

end Php

/-! ## Python -/

namespace Python

theorem selfAttribute_wellFormed {prev : Option UInt8} {s rest : Bytes} {a : Attribute}
    (h : selfAttribute prev s = some (a, rest)) : a.WellFormed .python := by
  simp only [selfAttribute, Option.bind_eq_bind, Option.bind_eq_some_iff, Option.pure_def,
    Option.some.injEq, Prod.mk.injEq, Prod.exists] at h
  obtain ⟨-, -, t, -, t₁, -, name, t₂, hword, t₃, -, t₄, -, rfl, -⟩ := h
  exact ⟨(Read.word_eq_some hword).2.1, rfl, defaultVisibility_mem⟩

theorem method_wellFormed {prev : Option UInt8} {s rest : Bytes} {m : Method}
    (h : method prev s = some (m, rest)) : m.WellFormed .python := by
  simp only [method, Option.bind_eq_bind, Option.bind_eq_some_iff, Option.pure_def,
    Option.some.injEq, Prod.mk.injEq, Prod.exists] at h
  obtain ⟨-, -, t, -, name, params, t', hhead, rfl, -⟩ := h
  obtain ⟨hname, hparams, -⟩ := functionHead_eq_some hhead
  exact ⟨hname, Bytes.collapse_isParams hparams, rfl, defaultVisibility_mem⟩

theorem function_wellFormed {prev : Option UInt8} {s rest : Bytes} {f : FunctionInfo}
    (h : function prev s = some (f, rest)) : f.WellFormed := by
  simp only [function, Option.bind_eq_bind, Option.bind_eq_some_iff, Option.pure_def,
    Option.some.injEq, Prod.mk.injEq, Prod.exists] at h
  obtain ⟨-, -, name, params, t, hhead, rfl, -⟩ := h
  obtain ⟨hname, hparams, -⟩ := functionHead_eq_some hhead
  exact ⟨hname, Bytes.collapse_isParams hparams, rfl⟩

/-- The first entry of the list of bases is the parent, so there are no interfaces without one. -/
theorem ofHeader_wellFormed {prev : Option UInt8} {o : Occurrence (Bytes × Bytes)}
    (h : classHeader prev o.here = some (o.value, o.rest)) :
    (ofHeader o).WellFormed .python := by
  have hread : HeaderRead prev o.here o.value.1 o.value.2 o.rest := classHeader_eq_some h
  have hbases : (0x29 : UInt8) ∉ o.value.2.trim :=
    fun hmem => hread.bases_plain (o.value.2.trim_subset hmem)
  have hitems : ∀ i ∈ o.value.2.trim.listItems.tail, i ∈ o.value.2.trim.listItems :=
    fun i => List.mem_of_mem_tail
  exact {
    name := hread.name_isName
    attributes := Form.forall_mem_values (fun _ _ _ _ => selfAttribute_wellFormed) _
    methods := Form.forall_mem_values (fun _ _ _ _ => method_wellFormed) _
    parent := by
      intro hnil
      exact (Bytes.listItems_isItem (List.mem_of_mem_head? hnil)).ne_nil rfl
    interfaces := fun i hi => Bytes.listItems_isItem (hitems i hi)
    heritage := by
      refine ⟨fun i hi => Bytes.not_mem_listItems hbases (hitems i hi), ?_⟩
      intro hne hnone
      apply hne
      show o.value.2.trim.listItems.tail = []
      rw [List.head?_eq_none_iff.mp hnone]
      rfl }

theorem outline_wellFormed (code : Bytes) : (outline code).WellFormed .python := by
  refine Outline.ofParts_wellFormed ?_
    (Form.forall_mem_values (fun _ _ _ _ => function_wellFormed) code)
  intro c hc
  obtain ⟨o, ho, rfl⟩ := List.mem_map.mp hc
  exact ofHeader_wellFormed (Form.inText_of_mem_occurrences ho).read

end Python

/-! ## All extractors together -/

/-- An outline that was put together from outlines of the built-in extractors: each class keeps to
the lexicon of the language that it was found in. -/
structure Outline.Mixed (o : Outline) : Prop where
  classes : ∀ c ∈ o.classes, c.WellFormed .java ∨ c.WellFormed .php ∨ c.WellFormed .python
  functions : ∀ f ∈ o.functions, f.WellFormed

theorem Outline.append_mixed {o p : Outline} (ho : o.Mixed) (hp : p.Mixed) : (o ++ p).Mixed := by
  refine ⟨?_, ?_⟩
  · intro c hc
    rcases List.mem_append.mp hc with hc | hc
    · exact ho.classes c hc
    · exact hp.classes c hc
  · intro f hf
    rcases List.mem_append.mp hf with hf | hf
    · exact ho.functions f hf
    · exact hp.functions f hf

namespace Registry

theorem mixed_of_mem_builtIn {e : Extractor} (he : e ∈ builtIn.extractors) (code : Bytes) :
    (e.extract code).Mixed := by
  simp only [builtIn, List.mem_cons, List.not_mem_nil, or_false] at he
  rcases he with rfl | rfl | rfl
  · have h := Java.outline_wellFormed code
    exact ⟨fun c hc => .inl (h.classes c hc), h.functions⟩
  · have h := Php.outline_wellFormed code
    exact ⟨fun c hc => .inr (.inl (h.classes c hc)), h.functions⟩
  · have h := Python.outline_wellFormed code
    exact ⟨fun c hc => .inr (.inr (h.classes c hc)), h.functions⟩

theorem extractAll_mixed {r : Registry} (hr : r.extractors ⊆ builtIn.extractors) (code : Bytes) :
    (r.extractAll code).Mixed := by
  refine extractAll_induction ⟨List.forall_mem_nil _, List.forall_mem_nil _⟩
    (fun _ _ => Outline.append_mixed) ?_
  intro e he
  exact mixed_of_mem_builtIn (hr he) code

end Registry

/-- **Outlines are well formed**, whatever bytes the text consists of: those of each built-in
extractor, and what any of them find together, in any order of registration. -/
theorem outlines_wellFormed (code : Bytes) :
    (Java.outline code).WellFormed .java ∧ (Java.outline code).functions = [] ∧
    (Php.outline code).WellFormed .php ∧
    (Python.outline code).WellFormed .python ∧
    (Registry.builtIn.extractAll code).Mixed ∧
    ∀ r : Registry, r.extractors ⊆ Registry.builtIn.extractors → (r.extractAll code).Mixed := by
  refine ⟨Java.outline_wellFormed code, ?_, Php.outline_wellFormed code,
    Python.outline_wellFormed code, Registry.extractAll_mixed (List.Subset.refl _) code, ?_⟩
  · rw [Java.outline, Outline.ofParts_eq]
  · intro r hr
    exact Registry.extractAll_mixed hr code

end ClassOutline
