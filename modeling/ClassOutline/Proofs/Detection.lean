import ClassOutline.Proofs.EdgeInvariant
import ClassOutline.Proofs.Text.Occurrences
import ClassOutline.Proofs.Text.Words
import Mathlib.Data.List.Forall2

/-!
# Detection sees what extraction finds

The shapes that tell a language and the forms that an extractor looks for are written down apart
from each other. This module shows that the two agree in the direction that matters: where an
extractor of Python finds a class or a function, or one of PHP a function, the telling shapes of that
language occur as well. The argument is an inclusion at one place of the text. The shape of PHP may
begin behind the place where the function is read, because the form of a function takes the space in
front of it.

It follows what an analysis without hint and without a telling file name looks like when no language
was detected and every extractor ran: there are no functions, and every class is there twice.

## Main results

- `Language.exists_functionCall_of_function`, `Language.definition_of_function`: the inclusions
- `Registry.candidates_eq_nil_of_merged`: outlines are merged only where no shape occurs
- `detection_covers_extraction`: both consequences
-/

namespace ClassOutline

namespace Language

/-! ## Inclusion at one place -/

/-- Behind space at the start of a line a word may begin. -/
theorem wordStart_lastAfter_spaces {prev : Option UInt8} (hprev : Read.lineStart prev = true)
    {gap : Bytes} (hgap : ∀ b ∈ gap, Bytes.isSpace b = true) :
    Read.wordStart (Bytes.lastAfter prev gap) = true := by
  by_cases hne : gap = []
  · -- nothing stands between, so the byte before is a newline
    subst hne
    cases prev with
    | none => rfl
    | some b =>
      simp only [Read.lineStart, Option.all_some, beq_iff_eq] at hprev
      subst hprev
      rfl
  · obtain ⟨b, hb, hlast⟩ := Bytes.lastAfter_mem hne prev
    rw [hlast]
    cases hword : Bytes.isWord b with
    | false => simp [Read.wordStart, hword]
    | true =>
      have hspace := Bytes.isSpace_of_isWord hword
      rw [hgap b hb] at hspace
      cases hspace

/-- Where a function of PHP is read, its head follows the space that stands in front. -/
theorem exists_functionCall_of_function {prev : Option UInt8} {s : Bytes}
    {r : FunctionInfo × Bytes} (h : Php.function prev s = some r) :
    ∃ gap t call, s = gap ++ t ∧ t ≠ [] ∧
      functionCall (Bytes.lastAfter prev gap) t = some call := by
  simp only [Php.function, Php.functionHead, Read.signature, Read.parenthesized,
    Option.bind_eq_bind, Option.bind_eq_some_iff, Option.guard_eq_some'] at h
  obtain ⟨-, hstart, -, ⟨t, hlit, t', hsp, ⟨w, t''⟩, hword, -, ⟨rest, hbyte, -⟩, -⟩, -⟩ := h
  obtain ⟨gap, hsplit, hgap⟩ := Read.spaces_split s
  refine ⟨gap, Read.spaces s, ((), rest), hsplit, ?_, ?_⟩
  · intro hnil
    rw [hnil] at hlit
    cases hlit
  · have hbegin := wordStart_lastAfter_spaces hstart hgap
    simp [functionCall, hbegin, hlit, hsp, hword, hbyte]

/-- Where a function of Python is read, its head is a telling shape too. -/
theorem definition_of_function {prev : Option UInt8} {s : Bytes} {r : FunctionInfo × Bytes}
    (h : Python.function prev s = some r) : ∃ head, definition prev s = some head := by
  simp only [Python.function, Python.functionHead, Read.signature, Read.parenthesized,
    Option.bind_eq_bind, Option.bind_eq_some_iff, Option.guard_eq_some'] at h
  obtain ⟨-, hstart, -, ⟨t, hlit, t', hsp, -, ⟨⟨w, t''⟩, hword, -, ⟨rest, hbyte, -⟩, -⟩, -⟩, -⟩ := h
  -- the shape allows space in front, of which there is none here
  have hspaces : Read.spaces s = s := by
    rw [Read.literal_eq_some hlit]
    exact Read.spaces_eq_self rfl
  exact ⟨((), rest), by simp [definition, hstart, hspaces, hlit, hsp, hword, hbyte]⟩

/-! ## Candidates -/

theorem php_mem_candidates {code : Bytes} (h : functionCall.occursIn code = true) :
    php ∈ candidates code := by
  simp [candidates, h]

theorem python_mem_candidates {code : Bytes}
    (h : Python.classHeader.occursIn code = true ∨ definition.occursIn code = true) :
    python ∈ candidates code := by
  rcases h with h | h
  · simp [candidates, h]
  · simp [candidates, h]

/-- The functions that the extractor of PHP finds are seen by the detector. -/
theorem php_mem_candidates_of_functions {code : Bytes} (h : (Php.outline code).functions ≠ []) :
    php ∈ candidates code := by
  have hocc : Php.function.occurrences code ≠ [] := by
    intro hnil
    apply h
    rw [Php.outline, Outline.ofParts_eq, Form.values, hnil, List.map_nil]
  obtain ⟨u, v, r, rfl, -, hread⟩ := Form.exists_read_of_occurrences_ne_nil hocc
  obtain ⟨gap, t, call, rfl, hne, hcall⟩ := exists_functionCall_of_function hread
  rw [← Bytes.lastAfter_append] at hcall
  rw [← List.append_assoc]
  exact php_mem_candidates (Form.occursIn_of_read hne hcall)

theorem python_mem_candidates_of_classes {code : Bytes} (h : (Python.outline code).classes ≠ []) :
    python ∈ candidates code := by
  have hocc : Python.classHeader.occurrences code ≠ [] := by
    intro hnil
    apply h
    rw [Python.outline, Outline.ofParts_eq, hnil, List.map_nil]
  obtain ⟨u, v, r, rfl, hne, hread⟩ := Form.exists_read_of_occurrences_ne_nil hocc
  exact python_mem_candidates (.inl (Form.occursIn_of_read hne hread))

theorem python_mem_candidates_of_functions {code : Bytes}
    (h : (Python.outline code).functions ≠ []) : python ∈ candidates code := by
  have hocc : Python.function.occurrences code ≠ [] := by
    intro hnil
    apply h
    rw [Python.outline, Outline.ofParts_eq, Form.values, hnil, List.map_nil]
  obtain ⟨u, v, r, rfl, hne, hread⟩ := Form.exists_read_of_occurrences_ne_nil hocc
  obtain ⟨head, hhead⟩ := definition_of_function hread
  exact python_mem_candidates (.inr (Form.occursIn_of_read hne hhead))

/-- Where the detector sees nothing, there is nothing for the extractor of Python. -/
theorem python_outline_eq_empty {code : Bytes} (h : python ∉ candidates code) :
    Python.outline code = Outline.empty := by
  have hclasses : (Python.outline code).classes = [] := by
    by_contra hne
    exact h (python_mem_candidates_of_classes hne)
  have hfunctions : (Python.outline code).functions = [] := by
    by_contra hne
    exact h (python_mem_candidates_of_functions hne)
  have hedges : (Python.outline code).edges = [] := by
    have hmatch : (Python.outline code).EdgesMatch := Outline.ofParts_edgesMatch _ _
    rw [hmatch, hclasses, List.flatMap_nil]
  calc Python.outline code
      = ⟨(Python.outline code).classes, (Python.outline code).functions,
          (Python.outline code).edges⟩ := rfl
    _ = Outline.empty := by rw [hclasses, hfunctions, hedges]; rfl

end Language

/-! ## Merged analyses -/

namespace Registry

/-- The outlines of the built-in extractors, one after another. -/
theorem builtIn_extractAll (code : Bytes) :
    builtIn.extractAll code =
      Outline.empty ++ Java.outline code ++ Php.outline code ++ Python.outline code := rfl

/-- For each language that a text may look like there is a built-in extractor. -/
theorem find?_isSome_of_mem_candidates {code : Bytes} {language : Language}
    (h : language ∈ Language.candidates code) : (builtIn.find? language).isSome = true := by
  have hknown : language = .java ∨ language = .php ∨ language = .python := by
    simp only [Language.candidates, List.mem_append] at h
    rcases h with (h | h) | h
    all_goals
      split at h
      · simp_all
      · cases h
  rcases hknown with rfl | rfl | rfl <;> decide

theorem outline_of_merged {r : Registry} {code hint filename : Bytes}
    (h : (r.analyze code hint filename).merged = true) :
    (r.analyze code hint filename).outline = r.extractAll code := by
  simp only [analyze] at h ⊢
  cases hfind : r.find? (resolve code hint filename) with
  | some e =>
    rw [hfind] at h
    cases h
  | none => rfl

/-- Without a hint and without a telling file name, outlines are merged only where the text looks
like no language at all. -/
theorem candidates_eq_nil_of_merged {code hint filename : Bytes}
    (hhint : Language.normalizeHint hint = []) (hname : Language.ofFilename filename = .unknown)
    (hmerged : (builtIn.analyze code hint filename).merged = true) :
    Language.candidates code = [] := by
  have hresolve : resolve code hint filename = (Language.candidates code).head?.getD .unknown := by
    simp [resolve, hhint, Language.detect, hname, Language.unknown]
  cases hcand : Language.candidates code with
  | nil => rfl
  | cons language more =>
    -- the first candidate has an extractor, which would have run alone
    have hmem : language ∈ Language.candidates code := by
      rw [hcand]
      exact List.mem_cons_self
    obtain ⟨e, he⟩ := Option.isSome_iff_exists.mp (find?_isSome_of_mem_candidates hmem)
    rw [hcand] at hresolve
    have hfind : builtIn.find? (resolve code hint filename) = some e := by
      rw [hresolve]
      exact he
    simp [analyze, hfind] at hmerged

/-- The shape of an outline that was merged because no language was detected. -/
structure MergedShape (code : Bytes) (o : Outline) : Prop where
  no_functions : o.functions = []
  python_empty : Python.outline code = Outline.empty
  classes_eq : o.classes = (Java.outline code).classes ++ (Php.outline code).classes
  /-- The two halves list the same classes, with the same parents. -/
  twice : List.Forall₂ (fun j h => j.name = h.name ∧ j.parent = h.parent)
    (Java.outline code).classes (Php.outline code).classes

/-- Java and PHP find the same classes: they differ in the members that they look for. -/
theorem classes_forall₂ (code : Bytes) :
    List.Forall₂ (fun j h => j.name = h.name ∧ j.parent = h.parent)
      (Java.outline code).classes (Php.outline code).classes := by
  rw [Java.outline, Php.outline, Outline.ofParts_eq, Outline.ofParts_eq]
  rw [List.forall₂_map_left_iff, List.forall₂_map_right_iff, List.forall₂_same]
  intro b _
  exact ⟨rfl, rfl⟩

theorem mergedShape_of_candidates_eq_nil {code : Bytes} (h : Language.candidates code = []) :
    MergedShape code (builtIn.extractAll code) := by
  have hpython : Python.outline code = Outline.empty :=
    Language.python_outline_eq_empty (by rw [h]; exact List.not_mem_nil)
  have hphp : (Php.outline code).functions = [] := by
    by_contra hne
    have hmem := Language.php_mem_candidates_of_functions hne
    rw [h] at hmem
    cases hmem
  have hjava : (Java.outline code).functions = [] := by rw [Java.outline, Outline.ofParts_eq]
  refine ⟨?_, hpython, ?_, classes_forall₂ code⟩
  · rw [builtIn_extractAll, hpython]
    show [] ++ (Java.outline code).functions ++ (Php.outline code).functions ++ [] = []
    rw [hjava, hphp]
    rfl
  · rw [builtIn_extractAll, hpython]
    show [] ++ (Java.outline code).classes ++ (Php.outline code).classes ++ [] = _
    rw [List.nil_append, List.append_nil]

end Registry

/-- **Detection sees what extraction finds.** A class or function of Python makes Python a candidate,
a function of PHP makes PHP one. So where neither hint nor file name tells a language and outlines
are merged, there are no functions, Python contributes nothing, and each class is there twice. -/
theorem detection_covers_extraction :
    (∀ code, (Python.outline code).classes ≠ [] ∨ (Python.outline code).functions ≠ [] →
      Language.python ∈ Language.candidates code) ∧
    (∀ code, (Php.outline code).functions ≠ [] → Language.php ∈ Language.candidates code) ∧
    (∀ code hint filename, Language.normalizeHint hint = [] →
      Language.ofFilename filename = .unknown →
      (Registry.builtIn.analyze code hint filename).merged = true →
      Registry.MergedShape code (Registry.builtIn.analyze code hint filename).outline) := by
  refine ⟨?python, ?php, ?merged⟩
  case python =>
    rintro code (h | h)
    · exact Language.python_mem_candidates_of_classes h
    · exact Language.python_mem_candidates_of_functions h
  case php => exact fun code => Language.php_mem_candidates_of_functions
  case merged =>
    intro code hint filename hhint hname hmerged
    have hcand := Registry.candidates_eq_nil_of_merged hhint hname hmerged
    rw [Registry.outline_of_merged hmerged]
    exact Registry.mergedShape_of_candidates_eq_nil hcand

/-- A clause in a comment is read as the parent of a class, but tells no language. -/
theorem detection_covers_extraction_comment :
    Language.python ∈ Language.candidates (Bytes.ofString "class A:\ndef f(x):\n") ∧
    Language.php ∈ Language.candidates (Bytes.ofString "  function f($x) \x7b\x7d") ∧
    Registry.MergedShape (Bytes.ofString "class A // extends B\n\x7b\x7d")
      (Registry.builtIn.analyze (Bytes.ofString "class A // extends B\n\x7b\x7d") [0x20]
        (Bytes.ofString "notes.txt")).outline ∧
    (Registry.builtIn.analyze (Bytes.ofString "class A // extends B\n\x7b\x7d") [0x20]
        (Bytes.ofString "notes.txt")).outline.classes.map ClassInfo.parent =
      [some (Bytes.ofString "B"), some (Bytes.ofString "B")] := by
  refine ⟨?_, ?_, ?_, by decide +kernel⟩
  · exact detection_covers_extraction.1 _ (.inl (by decide +kernel))
  · exact detection_covers_extraction.2.1 _ (by decide +kernel)
  · exact detection_covers_extraction.2.2 _ _ _ (by decide +kernel) (by decide +kernel)
      (by decide +kernel)

end ClassOutline
