import ClassOutline.Registry

/-!
# Edges follow classes

An outline keeps two lists side by side: its classes, and the inheritance edges between class
names. Nothing in the type ties them together; the operations do. This module states the tie as an
equation (`Outline.EdgesMatch`): the edges are exactly what the classes declare, class by class and
in the order of declaration.

## Main results

- `Outline.apply_edgesMatch`: one edit of an outline keeps the equation
- `Outline.run_edgesMatch`: hence every run of edits does
- `Registry.analyze_edgesMatch`: an analysis gives an outline with the equation, whichever
  extractors are registered, as long as each of them does
- `edges_coherent`: all of it for the built-in extractors, and that an edge starts at a class
-/

namespace ClassOutline

/-! ## The equation -/

/-- The edges that a class declares: one to its parent, if it names a non-empty one, then one to
each interface. -/
def ClassInfo.declaredEdges (c : ClassInfo) : List Edge :=
  ((c.parent.toList.filter (· ≠ [])).map fun p => ⟨c.name, p, Bytes.ofString "extends"⟩) ++
    c.interfaces.map fun i => ⟨c.name, i, Bytes.ofString "implements"⟩

theorem ClassInfo.edges_eq_declaredEdges (c : ClassInfo) : c.edges = c.declaredEdges := by
  unfold ClassInfo.edges ClassInfo.declaredEdges
  -- an empty name of a parent counts as none
  cases hp : c.parent with
  | none => rfl
  | some p =>
    cases p with
    | nil => rfl
    | cons b p => rfl

/-- Every edge of a class starts at that class. -/
theorem ClassInfo.source_of_mem_declaredEdges {c : ClassInfo} {e : Edge}
    (h : e ∈ c.declaredEdges) : e.source = c.name := by
  simp only [ClassInfo.declaredEdges, List.mem_append, List.mem_map] at h
  rcases h with ⟨p, _, rfl⟩ | ⟨i, _, rfl⟩
  · rfl
  · rfl

namespace Outline

/-- The edges of an outline are those that its classes declare, in the order of the classes. -/
def EdgesMatch (o : Outline) : Prop := o.edges = o.classes.flatMap ClassInfo.declaredEdges

/-- An outline whose edges match its classes, and in which every edge starts at a class. -/
structure Coherent (o : Outline) : Prop where
  edges_match : o.EdgesMatch
  source_mem : ∀ e ∈ o.edges, ∃ c ∈ o.classes, c.name = e.source

/-- Where the edges match, each of them comes from a class of the outline. -/
theorem EdgesMatch.coherent {o : Outline} (h : o.EdgesMatch) : o.Coherent := by
  refine ⟨h, ?_⟩
  intro e he
  rw [h, List.mem_flatMap] at he
  obtain ⟨c, hc, hec⟩ := he
  exact ⟨c, hc, (ClassInfo.source_of_mem_declaredEdges hec).symm⟩

/-! ## One operation -/

theorem empty_edgesMatch : empty.EdgesMatch := rfl

theorem addClass_edgesMatch {o : Outline} (h : o.EdgesMatch) (c : ClassInfo) :
    (o.addClass c).EdgesMatch := by
  simp only [EdgesMatch, addClass, List.flatMap_append, List.flatMap_cons, List.flatMap_nil,
    List.append_nil]
  rw [h, ClassInfo.edges_eq_declaredEdges]

theorem append_edgesMatch {o p : Outline} (ho : o.EdgesMatch) (hp : p.EdgesMatch) :
    (o ++ p).EdgesMatch := by
  show o.edges ++ p.edges = (o.classes ++ p.classes).flatMap ClassInfo.declaredEdges
  rw [List.flatMap_append, ho, hp]

/-- The outline of a list of classes and functions has just these, and the edges of the classes. -/
theorem ofParts_eq (classes : List ClassInfo) (functions : List FunctionInfo) :
    ofParts classes functions =
      ⟨classes, functions, classes.flatMap ClassInfo.declaredEdges⟩ := by
  -- the fold starts at the empty outline and each round adds one class
  have hfold : ∀ (cs : List ClassInfo) (o : Outline), cs.foldl addClass o =
      { o with classes := o.classes ++ cs
               edges := o.edges ++ cs.flatMap ClassInfo.declaredEdges } := by
    intro cs
    induction cs with
    | nil => simp
    | cons c cs ih =>
      intro o
      rw [List.foldl_cons, ih]
      simp [addClass, ClassInfo.edges_eq_declaredEdges]
  rw [ofParts, hfold]
  rfl

theorem ofParts_edgesMatch (classes : List ClassInfo) (functions : List FunctionInfo) :
    (ofParts classes functions).EdgesMatch := by
  rw [ofParts_eq]
  rfl

/-! ## Runs of operations -/

/-- One change of an outline. An outline that is merged in has to have matching edges itself. -/
inductive Edit where
  | addClass (c : ClassInfo)
  | addFunction (f : FunctionInfo)
  | merge (other : Option Outline) (matched : ∀ p ∈ other, p.EdgesMatch)
  | mergeSelf

def apply (o : Outline) : Edit → Outline
  | .addClass c => o.addClass c
  | .addFunction f => o.addFunction f
  | .merge other _ => o.merge other
  | .mergeSelf => o.merge (some o)

/-- Every change keeps the edges in step with the classes. -/
theorem apply_edgesMatch {o : Outline} (h : o.EdgesMatch) (e : Edit) :
    (o.apply e).EdgesMatch := by
  cases e with
  | addClass c => exact addClass_edgesMatch h c
  | addFunction f => exact h
  | merge other matched =>
    cases other with
    | none => exact h
    | some p => exact append_edgesMatch h (matched p rfl)
  | mergeSelf => exact append_edgesMatch h h

theorem run_edgesMatch {o : Outline} (h : o.EdgesMatch) (edits : List Edit) :
    (edits.foldl apply o).EdgesMatch := by
  induction edits generalizing o with
  | nil => exact h
  | cons e edits ih => exact ih (apply_edgesMatch h e)

end Outline

/-! ## Extraction and analysis -/

namespace Registry

/-- What holds of nothing, and of two outlines one after another if it holds of both, holds of the
outlines of all extractors together. -/
theorem extractAll_induction {P : Outline → Prop} (hempty : P Outline.empty)
    (happend : ∀ o p, P o → P p → P (o ++ p)) {r : Registry} {code : Bytes}
    (h : ∀ e ∈ r.extractors, P (e.extract code)) : P (r.extractAll code) := by
  have hfold : ∀ (es : List Extractor) (o : Outline), P o → (∀ e ∈ es, P (e.extract code)) →
      P (es.foldl (fun o e => o.merge (some (e.extract code))) o) := by
    -- the outline so far is the accumulator, so it is generalised over
    intro es
    induction es with
    | nil => exact fun o ho _ => ho
    | cons e es ih =>
      intro o ho hes
      have he : P (e.extract code) := hes e List.mem_cons_self
      exact ih _ (happend _ _ ho he) fun d hd => hes d (List.mem_cons_of_mem _ hd)
  exact hfold r.extractors Outline.empty hempty h

/-- The outlines of all extractors together, if each extractor keeps the equation. -/
theorem extractAll_edgesMatch {r : Registry} {code : Bytes}
    (h : ∀ e ∈ r.extractors, (e.extract code).EdgesMatch) : (r.extractAll code).EdgesMatch :=
  extractAll_induction Outline.empty_edgesMatch (fun _ _ => Outline.append_edgesMatch) h

theorem analyze_edgesMatch {r : Registry} {code : Bytes}
    (h : ∀ e ∈ r.extractors, (e.extract code).EdgesMatch) (hint filename : Bytes) :
    (r.analyze code hint filename).outline.EdgesMatch := by
  simp only [analyze]
  -- without an extractor for the language, all of them are run
  cases hfind : r.find? (resolve code hint filename) with
  | none => exact extractAll_edgesMatch h
  | some e => exact h e (List.mem_of_find?_eq_some hfind)

/-- The built-in extractors build their outlines from parts. -/
theorem builtIn_edgesMatch (code : Bytes) :
    ∀ e ∈ builtIn.extractors, (e.extract code).EdgesMatch := by
  intro e he
  simp only [builtIn, List.mem_cons, List.not_mem_nil, or_false] at he
  rcases he with rfl | rfl | rfl
  · exact Outline.ofParts_edgesMatch _ _
  · exact Outline.ofParts_edgesMatch _ _
  · exact Outline.ofParts_edgesMatch _ _

end Registry

/-- **Edges follow classes** in every outline that the library makes: in what each built-in
extractor finds in a text, in what all of them find together, in the outline of an analysis, and
after any run of changes that starts from nothing. -/
theorem edges_coherent :
    (∀ code, (Java.outline code).Coherent) ∧
    (∀ code, (Php.outline code).Coherent) ∧
    (∀ code, (Python.outline code).Coherent) ∧
    (∀ code, (Registry.builtIn.extractAll code).Coherent) ∧
    (∀ code hint filename, (Registry.builtIn.analyze code hint filename).outline.Coherent) ∧
    (∀ edits : List Outline.Edit, (edits.foldl Outline.apply Outline.empty).Coherent) := by
  refine ⟨?java, ?php, ?python, ?all, ?analysis, ?run⟩
  case java => exact fun code => (Outline.ofParts_edgesMatch _ _).coherent
  case php => exact fun code => (Outline.ofParts_edgesMatch _ _).coherent
  case python => exact fun code => (Outline.ofParts_edgesMatch _ _).coherent
  case all =>
    exact fun code => (Registry.extractAll_edgesMatch (Registry.builtIn_edgesMatch code)).coherent
  case analysis =>
    intro code hint filename
    exact (Registry.analyze_edgesMatch (Registry.builtIn_edgesMatch code) hint filename).coherent
  case run => exact fun edits => (Outline.run_edgesMatch Outline.empty_edgesMatch edits).coherent

end ClassOutline
