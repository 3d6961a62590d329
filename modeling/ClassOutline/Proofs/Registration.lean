import ClassOutline.Registry
import Mathlib.Data.List.Basic

/-!
# Registering extractors

An extractor that is registered comes behind all that were registered before. It is found only for a
language that no other extractor is for, and so it changes an analysis only where every extractor
ran: it then runs alone, if it is for the language of the analysis, and otherwise its outline comes
at the end of the merged one (`Registry.analyze_register`). What a whole history of registrations
makes of an analysis is the run of these steps (`Registry.analyze_ofHistory`); the first extractor
for the language ends it (`Registry.analyze_foldl_register_of_found`).

Any language may be registered for, several times, and also the empty name, which stands for an
unknown one.
-/

namespace ClassOutline

namespace Outline

/-- Outlines one after another. -/
def concatenation (os : List Outline) : Outline :=
  ⟨os.flatMap classes, os.flatMap functions, os.flatMap edges⟩

theorem append_assoc (o p q : Outline) : o ++ p ++ q = o ++ (p ++ q) := by
  show Outline.mk _ _ _ = ⟨o.classes ++ (p.classes ++ q.classes), _, _⟩
  exact congr (congr (congrArg _ (List.append_assoc ..)) (List.append_assoc ..))
    (List.append_assoc ..)

theorem foldl_append_eq (o : Outline) (os : List Outline) :
    os.foldl (· ++ ·) o = o ++ concatenation os := by
  induction os generalizing o with
  | nil =>
    show o = ⟨o.classes ++ [], o.functions ++ [], o.edges ++ []⟩
    simp only [List.append_nil]
  | cons p os ih =>
    have hcons : concatenation (p :: os) = p ++ concatenation os := rfl
    rw [List.foldl_cons, ih, hcons, append_assoc]

theorem empty_append (o : Outline) : empty ++ o = o := rfl

end Outline

/-- What one more extractor makes of an analysis: nothing, unless every extractor ran. -/
def Analysis.withExtractor (code : Bytes) (a : Analysis) (p : Extractor) : Analysis :=
  if a.merged then
    if p.language = a.language then ⟨p.extract code, a.language, false⟩
    else ⟨a.outline ++ p.extract code, a.language, true⟩
  else a

namespace Registry

variable {r : Registry} {p e : Extractor} {history more : List Extractor} {language : Language}
  {code hint filename : Bytes}

/-! ## Histories -/

/-- The registry after some registrations, the first one first. -/
def ofHistory (history : List Extractor) : Registry := history.foldl register empty

theorem extractors_foldl_register (r : Registry) (more : List Extractor) :
    (more.foldl register r).extractors = r.extractors ++ more := by
  induction more generalizing r with
  | nil => exact (List.append_nil _).symm
  | cons p more ih => rw [List.foldl_cons, ih, register, List.append_assoc, List.singleton_append]

theorem extractors_ofHistory (history : List Extractor) :
    (ofHistory history).extractors = history :=
  extractors_foldl_register empty history

/-! ## One registration -/

theorem find?_register (r : Registry) (p : Extractor) (language : Language) :
    (r.register p).find? language =
      (r.find? language).or (if p.language = language then some p else none) := by
  rw [find?, register, List.find?_append]
  congr 1
  by_cases hp : p.language = language <;> simp [hp]

theorem extractAll_register (r : Registry) (p : Extractor) (code : Bytes) :
    (r.register p).extractAll code = r.extractAll code ++ p.extract code := by
  rw [extractAll, register, List.foldl_append]
  rfl

theorem language_analyze (r : Registry) (code hint filename : Bytes) :
    (r.analyze code hint filename).language = resolve code hint filename := by
  unfold analyze
  dsimp only
  split <;> rfl

theorem analyze_register (r : Registry) (p : Extractor) (code hint filename : Bytes) :
    (r.register p).analyze code hint filename =
      (r.analyze code hint filename).withExtractor code p := by
  unfold analyze
  dsimp only
  rw [find?_register, extractAll_register]
  cases hfind : r.find? (resolve code hint filename) with
  | some e => rfl
  | none =>
    -- the language has no extractor yet, so the new one is found for it or runs behind the others
    by_cases hp : p.language = resolve code hint filename
    · simp [Analysis.withExtractor, hp]
    · simp [Analysis.withExtractor, hp]

/-! ## Runs of registrations -/

theorem analyze_foldl_register (r : Registry) (more : List Extractor) (code hint filename : Bytes) :
    (more.foldl register r).analyze code hint filename =
      more.foldl (Analysis.withExtractor code) (r.analyze code hint filename) := by
  induction more generalizing r with
  | nil => rfl
  | cons p more ih => rw [List.foldl_cons, ih, analyze_register, List.foldl_cons]

/-- An analysis is told by the history of the registry, from the first registration on. -/
theorem analyze_ofHistory (history : List Extractor) (code hint filename : Bytes) :
    (ofHistory history).analyze code hint filename =
      history.foldl (Analysis.withExtractor code)
        ⟨.empty, resolve code hint filename, true⟩ :=
  analyze_foldl_register empty history code hint filename

/-- Once one extractor runs alone, no registration changes the analysis any more. -/
theorem analyze_foldl_register_of_found (h : (r.analyze code hint filename).merged = false)
    (more : List Extractor) :
    (more.foldl register r).analyze code hint filename = r.analyze code hint filename := by
  rw [analyze_foldl_register]
  -- on the registrations: each of them leaves the analysis as it is, and that is the invariant
  induction more with
  | nil => rfl
  | cons p more ih =>
    have hkept : (r.analyze code hint filename).withExtractor code p =
        r.analyze code hint filename := by
      rw [Analysis.withExtractor, h]
      exact if_neg Bool.false_ne_true
    rw [List.foldl_cons, hkept, ih]

/-! ## The whole history -/

theorem find?_ofHistory_eq_some_iff :
    (ofHistory history).find? language = some e ↔
      ∃ before after, history = before ++ e :: after ∧ e.language = language ∧
        ∀ x ∈ before, x.language ≠ language := by
  rw [find?, extractors_ofHistory, List.find?_eq_some_iff_append]
  simp only [beq_iff_eq, Bool.not_eq_true', beq_eq_false_iff_ne]
  constructor
  · rintro ⟨he, before, after, hsplit, hbefore⟩
    exact ⟨before, after, hsplit, he, hbefore⟩
  · rintro ⟨before, after, hsplit, he, hbefore⟩
    exact ⟨he, before, after, hsplit, hbefore⟩

theorem find?_ofHistory_eq_none_iff :
    (ofHistory history).find? language = none ↔ ∀ x ∈ history, x.language ≠ language := by
  rw [find?, extractors_ofHistory, List.find?_eq_none]
  simp only [beq_iff_eq, ne_eq]

theorem extractAll_ofHistory (history : List Extractor) (code : Bytes) :
    (ofHistory history).extractAll code = Outline.concatenation (history.map (·.extract code)) := by
  rw [extractAll, extractors_ofHistory, ← Outline.empty_append (Outline.concatenation _),
    ← Outline.foldl_append_eq, List.foldl_map]
  rfl

/-- **Registering is conservative.** After any history of registrations the earliest extractor of a
language is the one that is found, and all extractors together give their outlines one after another
in the order of the history. One more registration leaves an analysis by a single extractor as it
is. A merged one becomes the new extractor's alone, if that is for its language; otherwise it stays
merged, with the new outline at its end. -/
theorem registration_conservative (history : List Extractor) (p : Extractor) :
    (∀ language e, (ofHistory history).find? language = some e ↔
      ∃ before after, history = before ++ e :: after ∧ e.language = language ∧
        ∀ x ∈ before, x.language ≠ language) ∧
    (∀ language, (ofHistory history).find? language = none ↔
      ∀ x ∈ history, x.language ≠ language) ∧
    (∀ code, (ofHistory history).extractAll code =
      Outline.concatenation (history.map (·.extract code))) ∧
    ∀ code hint filename,
      let old := (ofHistory history).analyze code hint filename
      let new := ((ofHistory history).register p).analyze code hint filename
      old.language = resolve code hint filename ∧
      (old.merged = false → new = old) ∧
      (old.merged = true → p.language = old.language →
        new = ⟨p.extract code, old.language, false⟩) ∧
      (old.merged = true → p.language ≠ old.language →
        new = ⟨old.outline ++ p.extract code, old.language, true⟩) := by
  refine ⟨fun _ _ => find?_ofHistory_eq_some_iff, fun _ => find?_ofHistory_eq_none_iff,
    extractAll_ofHistory history, fun code hint filename => ⟨language_analyze .., ?_⟩⟩
  rw [analyze_register]
  generalize (ofHistory history).analyze code hint filename = old
  unfold Analysis.withExtractor
  refine ⟨fun hfound => ?found, fun hmerged hp => ?taken, fun hmerged hp => ?appended⟩
  case found => simp [hfound]
  case taken => simp [hmerged, hp]
  case appended => simp [hmerged, hp]

/-- An extractor that finds one function, whatever the text. -/
def finding (language name : String) : Extractor where
  language := Bytes.ofString language
  extract _ := { functions := [⟨Bytes.ofString name, [], []⟩] }

/-- A history with one language twice and one extractor for the empty name. -/
theorem registration_conservative_repeated :
    let history := [finding "go" "a", finding "" "b", finding "go" "c"]
    let r := ofHistory history
    let go := Bytes.ofString " Go"
    let rust := Bytes.ofString "Rust"
    r.find? (Bytes.ofString "go") = some (finding "go" "a") ∧ r.find? [] = some (finding "" "b") ∧
      (r.register (finding "go" "d")).analyze [] go [] = r.analyze [] go [] ∧
      (r.register (finding "rust" "d")).analyze [] rust [] =
        ⟨(finding "rust" "d").extract [], Bytes.ofString "rust", false⟩ ∧
      (r.register (finding "go" "d")).analyze [] rust [] =
        ⟨Outline.concatenation ((history ++ [finding "go" "d"]).map (·.extract [])),
          Bytes.ofString "rust", true⟩ := by
  intro history r go rust
  obtain ⟨hfind, -, hall, hgo⟩ := registration_conservative history (finding "go" "d")
  obtain ⟨-, -, -, hrust⟩ := registration_conservative history (finding "rust" "d")
  have hmerged : r.analyze [] rust [] = ⟨r.extractAll [], Bytes.ofString "rust", true⟩ := by rfl
  have hother : Bytes.ofString "go" ≠ Bytes.ofString "rust" := by decide
  refine ⟨?_, ?_, ?_, ?_, ?_⟩
  · exact (hfind _ _).mpr ⟨[], _, rfl, rfl, List.forall_mem_nil _⟩
  · exact (hfind _ _).mpr ⟨[finding "go" "a"], _, rfl, rfl, by decide⟩
  · exact (hgo [] go []).2.1 rfl
  · exact (hrust [] rust []).2.2.1 rfl rfl
  · rw [(hgo [] rust []).2.2.2 rfl hother, hmerged, hall]
    rfl

end Registry

end ClassOutline
