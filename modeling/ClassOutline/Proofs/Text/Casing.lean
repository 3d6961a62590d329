import ClassOutline.Files.Path
import ClassOutline.Proofs.Text.Encoding
import ClassOutline.Proofs.Text.Trimming
import ClassOutline.Registry
import Mathlib.Data.List.Find

/-!
# Letter case, hints and file names

Hints and file names are compared in lower case. Lower case is a projection (`Bytes.lower_lower`):
no small letter is a capital itself, which is checked for the table of capitals run by run
(`CapitalRun.avoids`). It makes no white space either, so a hint is normalised once and for all
(`Language.normalizeHint_normalizeHint`), and however often that is done before an analysis the
outcome is the same (`Registry.analyze_normalizeHint`).

A slash has no lower case and no ending has a slash in it. So of a path only what follows the last
slash tells a language (`Language.ofFilename_append_slash`, `Registry.analyze_append_slash`).
-/

namespace ClassOutline

/-! ## Capitals and small letters -/

namespace CapitalRun

variable {run other : CapitalRun} {c : Nat}

/-- The small letter of a capital of a run. -/
def small (run : CapitalRun) (c : Nat) : Nat := (c + run.shift).toNat

/-- Whether a run leads to none of the capitals of another: the small letters lie before or behind
these, or both leave out every second number and stand in each other's gaps. -/
def avoids (run other : CapitalRun) : Bool :=
  !Nat.ble (run.small run.first) other.last || !Nat.ble other.first (run.small run.last) ||
    other.step == 2 && (run.step == 2 || run.first == run.last) &&
      (run.small run.first + other.first) % 2 == 1

/-- Whether a run leads to characters, and to none that is white space. -/
def isVisible (run : CapitalRun) : Bool :=
  0 ≤ run.first + run.shift && run.small run.last < 0x110000 &&
    (run.small run.last < 0xD800 || 0xE000 ≤ run.small run.first) &&
    [9, 10, 11, 12, 13, 0x20, 0x85, 0xA0, 0x1680, 0x2000, 0x2001, 0x2002, 0x2003, 0x2004, 0x2005,
      0x2006, 0x2007, 0x2008, 0x2009, 0x200A, 0x2028, 0x2029, 0x202F, 0x205F, 0x3000].all
      fun n => n < run.small run.first || run.small run.last < n

-- the kernel goes through the table, once run by run and once for all pairs of runs
theorem isVisible_of_mem (h : run ∈ capitalRuns) : run.isVisible = true := by
  have hall : capitalRuns.all isVisible = true := by decide +kernel
  exact List.all_eq_true.mp hall run h

theorem avoids_of_mem (h : run ∈ capitalRuns) (hother : other ∈ capitalRuns) :
    run.avoids other = true := by
  have hall : (capitalRuns.all fun run => capitalRuns.all run.avoids) = true := by decide +kernel
  exact List.all_eq_true.mp (List.all_eq_true.mp hall run h) other hother

/-- A run keeps the distances between its letters. -/
theorem small_of_holds (h : run ∈ capitalRuns) (hc : run.holds c = true) :
    run.small c = run.small run.first + (c - run.first) ∧ run.small c ≤ run.small run.last := by
  have hvisible := isVisible_of_mem h
  simp only [isVisible, Bool.and_eq_true, decide_eq_true_eq] at hvisible
  obtain ⟨⟨⟨hstart, -⟩, -⟩, -⟩ := hvisible
  simp only [holds, Bool.and_eq_true, decide_eq_true_eq, beq_iff_eq] at hc
  unfold small
  omega

/-- No small letter is a capital. -/
theorem holds_small (h : run ∈ capitalRuns) (hother : other ∈ capitalRuns)
    (hc : run.holds c = true) : other.holds (run.small c) = false := by
  obtain ⟨hsmall, hlast⟩ := small_of_holds h hc
  have hble : ∀ m n : Nat, Nat.ble m n = false ↔ n < m := by
    intro m n
    rw [← Bool.not_eq_true, Nat.ble_eq, Nat.not_le]
  have havoids := avoids_of_mem h hother
  simp only [avoids, Bool.or_eq_true, Bool.and_eq_true, Bool.not_eq_true', beq_iff_eq, hble]
    at havoids
  rw [Bool.eq_false_iff]
  intro hheld
  simp only [holds, Bool.and_eq_true, decide_eq_true_eq, beq_iff_eq] at hc hheld
  obtain ⟨⟨hfirst, hend⟩, hstep⟩ := hc
  rcases havoids with (hbefore | hbehind) | ⟨⟨htwo, hgap⟩, hodd⟩
  · omega
  · omega
  · rw [htwo] at hheld
    rcases hgap with hgap | hgap
    · rw [hgap] at hstep
      omega
    · omega

end CapitalRun

variable {c : Nat} {s : Bytes}

/-- A code point is its own small letter, or a capital of some run. -/
theorem lowerCode_cases (c : Nat) :
    lowerCode c = c ∨ ∃ run ∈ capitalRuns, run.holds c = true ∧ lowerCode c = run.small c := by
  unfold lowerCode
  cases hfind : capitalRuns.find? (·.holds c) with
  | none => exact .inl rfl
  | some run =>
    have hheld := List.find?_some hfind
    exact .inr ⟨run, List.mem_of_find?_eq_some hfind, hheld, rfl⟩

theorem lowerCode_lowerCode (c : Nat) : lowerCode (lowerCode c) = lowerCode c := by
  rcases lowerCode_cases c with h | ⟨run, hrun, hheld, h⟩
  · rw [h, h]
  · have hnone : capitalRuns.find? (·.holds (run.small c)) = none := by
      rw [List.find?_eq_none]
      intro other hother
      rw [CapitalRun.holds_small hrun hother hheld]
      exact Bool.false_ne_true
    rw [h, lowerCode, hnone]

theorem lowerCode_isScalar (hc : Rune.IsScalar c) : Rune.IsScalar (lowerCode c) := by
  rcases lowerCode_cases c with h | ⟨run, hrun, hheld, h⟩
  · rwa [h]
  · obtain ⟨hsmall, hlast⟩ := CapitalRun.small_of_holds hrun hheld
    have hvisible := CapitalRun.isVisible_of_mem hrun
    simp only [CapitalRun.isVisible, Bool.and_eq_true, Bool.or_eq_true, decide_eq_true_eq]
      at hvisible
    rw [h]
    constructor <;> omega

/-- Lower case makes no white space. -/
theorem isBlankCode_lowerCode (hc : Rune.isBlankCode c = false) :
    Rune.isBlankCode (lowerCode c) = false := by
  rcases lowerCode_cases c with h | ⟨run, hrun, hheld, h⟩
  · rwa [h]
  · obtain ⟨hsmall, hlast⟩ := CapitalRun.small_of_holds hrun hheld
    have hvisible := CapitalRun.isVisible_of_mem hrun
    simp only [CapitalRun.isVisible, Bool.and_eq_true, Bool.or_eq_true, decide_eq_true_eq,
      List.all_cons, List.all_nil] at hvisible
    rw [h, Bool.eq_false_iff]
    intro hblank
    simp only [Rune.isBlankCode, Bool.or_eq_true, Bool.and_eq_true, decide_eq_true_eq,
      beq_iff_eq] at hblank
    omega

/-! ## Texts in lower case -/

namespace Bytes

theorem lower_eq_flatMap (s : Bytes) :
    lower s = (s.runes.map fun r => lowerCode r.code).flatMap ofCodePoint := by
  rw [lower, List.flatMap_map]

theorem runes_lower (s : Bytes) :
    runes (lower s) = s.runes.map fun r => ⟨lowerCode r.code, ofCodePoint (lowerCode r.code)⟩ := by
  have hscalar : ∀ n ∈ s.runes.map (fun r => lowerCode r.code), Rune.IsScalar n := by
    intro n hn
    obtain ⟨r, hr, rfl⟩ := List.mem_map.mp hn
    exact lowerCode_isScalar (isScalar_of_mem_runes hr)
  rw [lower_eq_flatMap, runes_flatMap_ofCodePoint hscalar, List.map_map]
  rfl

@[simp] theorem lower_lower (s : Bytes) : s.lower.lower = s.lower := by
  rw [lower_eq_flatMap s.lower, runes_lower, List.map_map, lower_eq_flatMap s]
  congr 2
  funext r
  exact lowerCode_lowerCode r.code

theorem IsTrimmed.lower (h : s.IsTrimmed) : s.lower.IsTrimmed := by
  -- a character at an end that is not blank stays so
  have hkeep : ∀ o : Option Rune, o.any Rune.isBlank = false →
      (o.map fun r => Rune.mk (lowerCode r.code) (ofCodePoint (lowerCode r.code))).any
        Rune.isBlank = false := by
    intro o ho
    cases o with
    | none => rfl
    | some r => exact isBlankCode_lowerCode ho
  refine ⟨?first, ?last⟩
  · rw [runes_lower, List.head?_map]
    exact hkeep _ h.first
  · rw [runes_lower, List.getLast?_map]
    exact hkeep _ h.last

/-- A text may be cut in front of a slash. -/
theorem lower_append_slash (u s : Bytes) :
    lower (u ++ Path.slash :: s) = lower u ++ Path.slash :: lower s := by
  have hslash : ofCodePoint (lowerCode Path.slash.toNat) = [Path.slash] := by decide +kernel
  have hascii : Path.slash < 0x80 := by decide
  have hcut : runes (u ++ Path.slash :: s) = runes u ++ runes (Path.slash :: s) :=
    runes_append (by simpa using hascii) u
  rw [lower, hcut, runes_ascii hascii, List.flatMap_append, List.flatMap_cons, hslash]
  rfl

theorem isSuffixOf_append_slash {ending : Bytes} (h : Path.slash ∉ ending) (u s : Bytes) :
    ending.isSuffixOf (u ++ Path.slash :: s) = ending.isSuffixOf s := by
  rw [Bool.eq_iff_iff, List.isSuffixOf_iff_suffix, List.isSuffixOf_iff_suffix]
  constructor
  · intro hsuffix
    rcases List.suffix_or_suffix_of_suffix hsuffix (List.suffix_append u (Path.slash :: s)) with
      hin | hout
    · rcases List.suffix_cons_iff.mp hin with rfl | hin
      · exact absurd List.mem_cons_self h
      · exact hin
    · exact absurd (hout.subset List.mem_cons_self) h
  · intro hsuffix
    exact hsuffix.trans ((List.suffix_cons _ _).trans (List.suffix_append _ _))

end Bytes

/-! ## Hints and file names -/

namespace Language

@[simp] theorem normalizeHint_normalizeHint (hint : Bytes) :
    normalizeHint (normalizeHint hint) = normalizeHint hint := by
  rw [normalizeHint, normalizeHint, hint.trim_isTrimmed.lower.trim_eq, Bytes.lower_lower]

/-- Of a path, only what follows a slash tells a language. -/
theorem ofFilename_append_slash (dir f : Bytes) :
    ofFilename (dir ++ Path.slash :: f) = ofFilename f := by
  have hplain : ∀ e ∈ endings, Path.slash ∉ e.1 := by decide +kernel
  have hfind : endings.find? (fun e => e.1.isSuffixOf (Bytes.lower (dir ++ Path.slash :: f))) =
      endings.find? fun e => e.1.isSuffixOf (Bytes.lower f) := by
    rw [Bytes.lower_append_slash]
    apply List.find?_congr
    intro e he
    rw [Bytes.isSuffixOf_append_slash (hplain e he)]
  rw [ofFilename, hfind]
  rfl

theorem detect_append_slash (code dir f : Bytes) :
    detect code (dir ++ Path.slash :: f) = detect code f := by
  rw [detect, ofFilename_append_slash]
  rfl

end Language

namespace Registry

theorem analyze_normalizeHint (r : Registry) (code hint filename : Bytes) :
    r.analyze code (Language.normalizeHint hint) filename = r.analyze code hint filename := by
  have hresolve : resolve code (Language.normalizeHint hint) filename = resolve code hint filename := by
    rw [resolve, resolve, Language.normalizeHint_normalizeHint]
  rw [analyze, analyze, hresolve]

theorem analyze_append_slash (r : Registry) (code hint dir f : Bytes) :
    r.analyze code hint (dir ++ Path.slash :: f) = r.analyze code hint f := by
  have hresolve : resolve code hint (dir ++ Path.slash :: f) = resolve code hint f := by
    rw [resolve, resolve, Language.detect_append_slash]
  rw [analyze, analyze, hresolve]

end Registry

end ClassOutline
