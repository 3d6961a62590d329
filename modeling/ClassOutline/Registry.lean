import ClassOutline.Extract.Java
import ClassOutline.Extract.Php
import ClassOutline.Language

/-!
# Analysis of a source text

A registry holds extractors, each for one language, in the order in which they were registered. An
analysis resolves the language of a text from the caller's hint, the file name and the text, and
runs the extractor of that language. Where there is none, every extractor runs and the outlines
are put one after another.
-/

namespace ClassOutline

/-- An extractor of outlines for one language. -/
structure Extractor where
  language : Language
  extract : Bytes → Outline

/-- The built-in extractors, by name. -/
def Extractor.builtIn? (language : Language) : Option Extractor :=
  [⟨.java, Java.outline⟩, ⟨.php, Php.outline⟩, ⟨.python, Python.outline⟩].find?
    fun (e : Extractor) => e.language == language

/-- The outcome of an analysis. -/
structure Analysis where
  outline : Outline
  /-- The hint or the detected language; empty when neither is known. -/
  language : Language
  /-- Whether every extractor ran. -/
  merged : Bool
deriving DecidableEq, Repr

/-- The available extractors, in the order of registration. -/
structure Registry where
  extractors : List Extractor

namespace Registry

/-- The registry without extractors. -/
def empty : Registry := ⟨[]⟩

/-- The registry with one more extractor, at the end. -/
def register (r : Registry) (e : Extractor) : Registry := ⟨r.extractors ++ [e]⟩

/-- The registry of the built-in extractors. -/
def builtIn : Registry := ⟨[⟨.java, Java.outline⟩, ⟨.php, Php.outline⟩, ⟨.python, Python.outline⟩]⟩

/-- The extractor for a language: the earliest one registered for it. -/
def find? (r : Registry) (language : Language) : Option Extractor :=
  r.extractors.find? fun e => e.language == language

/-- The outlines of all extractors, one after another. -/
def extractAll (r : Registry) (code : Bytes) : Outline :=
  r.extractors.foldl (fun o e => o.merge (some (e.extract code))) Outline.empty

/-- The language that an analysis resolves: the hint, or else what file name and text tell. -/
def resolve (code hint filename : Bytes) : Language :=
  let hinted := Language.normalizeHint hint
  if hinted.isEmpty then Language.detect code filename else hinted

/-- The analysis of a text. -/
def analyze (r : Registry) (code hint filename : Bytes) : Analysis :=
  let language := resolve code hint filename
  match r.find? language with
  | some e => ⟨e.extract code, language, false⟩
  | none => ⟨r.extractAll code, language, true⟩

end Registry

end ClassOutline
