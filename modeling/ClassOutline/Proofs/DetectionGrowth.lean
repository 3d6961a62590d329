import ClassOutline.Language
import ClassOutline.Proofs.Text.Occurrences

/-!
# Detection only gains from more lines

Text is added to a source in whole lines, before it or behind it. A telling shape that was there is
still there then, though what it looks at may have changed: a run of space at the end goes on into
the new lines, a line that ended with the text ends with a newline now, and what stood at the very
start stands at the start of a line. None of this takes a shape away.

The argument is made once for all shapes (`Form.LineLocal`): where the shape is read, it is read in
front of further lines as well, and a newline before it is as good as the start of the text. For
each shape this is a matter of the pieces it is made of (`Read.word_lines` and the others), since a
newline belongs to no piece but space.

## Main results

- `Form.LineLocal.occursIn_left`, `Form.LineLocal.occursIn_right`: occurrences are kept
- `Language.mem_candidates_lines`: hence candidates are kept
- `Language.detection_monotone`: and what is detected comes no later in the order of preference
-/

namespace ClassOutline

/-! ## Pieces in front of further lines -/

namespace Read

variable {s t w u : Bytes}

theorem literal_lines {k : String} (h : literal k s = some t) (more : Bytes) :
    literal k (s ++ more) = some (t ++ more) := by
  rw [literal_eq_some h, List.append_assoc]
  exact literal_append k (t ++ more)

theorem byte_lines {b : UInt8} (h : byte b s = some t) (more : Bytes) :
    byte b (s ++ more) = some (t ++ more) := by
  rw [byte_eq_some h]
  simp [byte]

/-- Space that ends inside the text ends at the same place. -/
theorem spaces_lines (h : spaces s ≠ []) (more : Bytes) : spaces (s ++ more) = spaces s ++ more := by
  have hne : (s.dropWhile Bytes.isSpace).isEmpty = false := by
    rw [List.isEmpty_eq_false_iff]
    exact h
  rw [spaces, List.dropWhile_append, hne]
  rfl

theorem spaces1_lines (h : spaces1 s = some t) (hne : t ≠ []) (more : Bytes) :
    spaces1 (s ++ more) = some (t ++ more) := by
  cases s with
  | nil => cases h
  | cons b s =>
    rw [spaces1] at h
    split at h
    · next hb =>
      obtain rfl := Option.some.inj h
      rw [List.cons_append, spaces1, if_pos hb, spaces_lines hne]
    · cases h

/-- A word that ends with the text ends at the newline. -/
theorem word_lines (h : word s = some (w, t)) (more : Bytes) :
    word (s ++ 10 :: more) = some (w, t ++ 10 :: more) := by
  obtain ⟨rfl, ⟨hne, hw⟩, hstop⟩ := word_eq_some h
  rw [List.append_assoc]
  apply word_append hne hw
  cases t with
  | nil => rfl
  | cons c t => exact hstop

theorem parenthesized_lines (h : parenthesized s = some (u, t)) (more : Bytes) :
    parenthesized (s ++ more) = some (u, t ++ more) := by
  obtain ⟨rfl, hu⟩ := parenthesized_eq_some h
  simpa using parenthesized_append hu (t ++ more)

theorem ne_nil_of_word (h : word s = some (w, t)) : s ≠ [] := by
  rintro rfl
  cases h

theorem ne_nil_of_byte {b : UInt8} (h : byte b s = some t) : s ≠ [] := by
  rintro rfl
  cases h

end Read

/-! ## Forms in front of further lines -/

namespace Form

variable {α : Type} {form : Form α}

/-- The form sees of the text around it only the line it begins in and what belongs to it: it is
read in front of further lines too, and behind a newline as at the start of the text. -/
structure LineLocal (form : Form α) : Prop where
  further : ∀ {prev : Option UInt8} {s : Bytes} {r : α × Bytes}, form prev s = some r →
    ∀ more, ∃ r', form prev (s ++ 10 :: more) = some r'
  first : ∀ s, form none s = form (some 10) s

theorem here_ne_nil_of_firstFrom {pos : Nat} {prev : Option UInt8} {s : Bytes} {o : Occurrence α}
    (h : form.firstFrom pos prev s = some o) : o.here ≠ [] := by
  induction s generalizing pos prev with
  | nil => cases h
  | cons b s ih =>
    rw [firstFrom] at h
    cases hread : form prev (b :: s) with
    | some r =>
      rw [hread] at h
      obtain rfl := Option.some.inj h
      exact List.cons_ne_nil b s
    | none =>
      rw [hread] at h
      exact ih h

/-- Where a form occurs, there is a place where it is read. -/
theorem exists_read_of_occursIn {code : Bytes} (h : form.occursIn code = true) :
    ∃ u v r, code = u ++ v ∧ v ≠ [] ∧ form (Bytes.lastAfter none u) v = some r := by
  obtain ⟨o, ho⟩ := Option.isSome_iff_exists.mp h
  obtain ⟨u, hcode, -, -, hread⟩ := firstFrom_eq_some ho
  exact ⟨u, o.here, _, hcode, here_ne_nil_of_firstFrom ho, hread⟩

/-- Lines behind a text take no occurrence away. -/
theorem LineLocal.occursIn_left (hform : form.LineLocal) {a : Bytes}
    (h : form.occursIn a = true) (b : Bytes) : form.occursIn (a ++ 10 :: b) = true := by
  obtain ⟨u, v, r, rfl, -, hread⟩ := exists_read_of_occursIn h
  obtain ⟨r', hread'⟩ := hform.further hread b
  rw [List.append_assoc]
  exact occursIn_of_read (by simp) hread'

/-- Lines in front of a text take no occurrence away. -/
theorem LineLocal.occursIn_right (hform : form.LineLocal) {b : Bytes}
    (h : form.occursIn b = true) (a : Bytes) : form.occursIn (a ++ 10 :: b) = true := by
  obtain ⟨u, v, r, rfl, hne, hread⟩ := exists_read_of_occursIn h
  have hplace : form (Bytes.lastAfter none (a ++ 10 :: u)) v = some r := by
    rw [Bytes.lastAfter_append, Bytes.lastAfter_cons]
    cases u with
    -- what was read at the start of the text is read behind the newline now
    | nil => rw [← hread]; exact (hform.first v).symm
    | cons c u => exact hread
  rw [← List.cons_append, ← List.append_assoc]
  exact occursIn_of_read hne hplace

end Form

/-! ## The telling shapes -/

namespace Language

variable {s t : Bytes}

theorem startsHeritage_lines (h : startsHeritage s = true) (more : Bytes) :
    startsHeritage (s ++ more) = true := by
  simp only [startsHeritage, Bool.or_eq_true, Option.isSome_iff_exists] at h ⊢
  rcases h with ⟨t, h⟩ | ⟨t, h⟩
  · exact .inl ⟨_, Read.literal_lines h more⟩
  · exact .inr ⟨_, Read.literal_lines h more⟩

theorem heritage_lineLocal : heritage.LineLocal where
  first := fun _ => rfl
  further := by
    intro prev s r h more
    simp only [heritage, Option.bind_eq_bind, Option.bind_eq_some_iff, Option.guard_eq_some',
      Prod.exists] at h
    obtain ⟨-, hprev, t, hlit, t', hsp, name, t'', hword, -, hclause, -⟩ := h
    -- the clause is part of the name, or it follows behind space
    have hclause' : holdsHeritage name.tail = true ∨
        startsHeritage (Read.spaces (t'' ++ 10 :: more)) = true := by
      rw [Bool.or_eq_true] at hclause
      rcases hclause with hin | hbehind
      · exact .inl hin
      · have hne : Read.spaces t'' ≠ [] := by
          intro hnil
          rw [hnil] at hbehind
          cases hbehind
        rw [Read.spaces_lines hne]
        exact .inr (startsHeritage_lines hbehind _)
    have hsp' := Read.spaces1_lines hsp (Read.ne_nil_of_word hword) (10 :: more)
    refine ⟨((), t'' ++ 10 :: more), ?_⟩
    simp [heritage, hprev, Read.literal_lines hlit, hsp', Read.word_lines hword, hclause']

/-- Where a line ended with the text, it ends with a newline now. -/
theorem statementEnd_lineLocal : statementEnd.LineLocal where
  first := fun _ => rfl
  further := by
    intro prev s r h more
    simp only [statementEnd, Option.bind_eq_bind, Option.bind_eq_some_iff,
      Option.guard_eq_some'] at h
    obtain ⟨t, hbyte, -, hend, -⟩ := h
    let rest := (t ++ 10 :: more).dropWhile fun b => Bytes.isSpace b && b != Python.newline
    have hend' : rest.head?.all (· == Python.newline) = true := by
      simp only [rest]
      rw [List.dropWhile_append]
      split
      · rfl
      · next hne =>
        -- the line ended before the end of the text
        obtain ⟨c, rest, hrest⟩ := List.exists_cons_of_ne_nil (List.isEmpty_eq_false_iff.mp
          (Bool.eq_false_iff.mpr hne))
        rw [hrest] at hend ⊢
        exact hend
    refine ⟨((), rest), ?_⟩
    simp only [statementEnd, Read.byte_lines hbyte, Option.bind_eq_bind, Option.bind_some]
    rw [hend']
    rfl

theorem openTag_lineLocal : openTag.LineLocal where
  first := fun _ => rfl
  further := by
    intro prev s r h more
    simp only [openTag, Option.bind_eq_bind, Option.bind_eq_some_iff] at h
    obtain ⟨t, hlit, -⟩ := h
    refine ⟨((), t ++ 10 :: more), ?_⟩
    simp [openTag, Read.literal_lines hlit]

theorem functionCall_lineLocal : functionCall.LineLocal where
  first := fun _ => rfl
  further := by
    intro prev s r h more
    simp only [functionCall, Option.bind_eq_bind, Option.bind_eq_some_iff, Option.guard_eq_some',
      Prod.exists] at h
    obtain ⟨-, hprev, t, hlit, t', hsp, name, t'', hword, rest, hbyte, -⟩ := h
    have hsp' := Read.spaces1_lines hsp (Read.ne_nil_of_word hword) (10 :: more)
    have hgap := Read.spaces_lines (Read.ne_nil_of_byte hbyte) (10 :: more)
    refine ⟨((), rest ++ 10 :: more), ?_⟩
    simp [functionCall, hprev, Read.literal_lines hlit, hsp', Read.word_lines hword, hgap,
      Read.byte_lines hbyte]

theorem definition_lineLocal : definition.LineLocal where
  first := fun _ => rfl
  further := by
    intro prev s r h more
    simp only [definition, Option.bind_eq_bind, Option.bind_eq_some_iff, Option.guard_eq_some',
      Prod.exists] at h
    obtain ⟨-, hprev, t, hlit, t', hsp, name, t'', hword, rest, hbyte, -⟩ := h
    have hindent : Read.spaces s ≠ [] := by
      intro hnil
      rw [hnil] at hlit
      cases hlit
    have hlit' := Read.literal_lines hlit (10 :: more)
    have hsp' := Read.spaces1_lines hsp (Read.ne_nil_of_word hword) (10 :: more)
    have hgap := Read.spaces_lines (Read.ne_nil_of_byte hbyte) (10 :: more)
    refine ⟨((), rest ++ 10 :: more), ?_⟩
    simp [definition, hprev, Read.spaces_lines hindent, hlit', hsp', Read.word_lines hword, hgap,
      Read.byte_lines hbyte]

end Language

namespace Python

/-- A line ends where only space is left, or where there is a newline in the space. -/
theorem exists_lineEnd_iff {s : Bytes} : (∃ t, lineEnd s = some t) ↔
    s.dropWhile Bytes.isSpace = [] ∨ newline ∈ s.takeWhile Bytes.isSpace := by
  cases hrest : s.dropWhile Bytes.isSpace with
  | nil => simp [lineEnd, hrest]
  | cons c rest => simp [lineEnd, hrest]

theorem exists_lineEnd_lines {s t : Bytes} (h : lineEnd s = some t) (more : Bytes) :
    ∃ t', lineEnd (s ++ 10 :: more) = some t' := by
  rw [exists_lineEnd_iff]
  right
  rcases exists_lineEnd_iff.mp ⟨t, h⟩ with hall | hmem
  · -- all of the text is space, and the newline behind it belongs to the same run
    have hrun : s.takeWhile Bytes.isSpace = s := by
      have hsplit := List.takeWhile_append_dropWhile (p := Bytes.isSpace) (l := s)
      rwa [hall, List.append_nil] at hsplit
    have hspaces : ∀ b ∈ s, Bytes.isSpace b = true := by
      intro b hb
      rw [← hrun] at hb
      exact Read.of_mem_takeWhile hb
    rw [List.takeWhile_append_of_pos hspaces, List.mem_append]
    exact .inr List.mem_cons_self
  · rw [List.takeWhile_append]
    split
    · exact List.mem_append_left _ ((List.takeWhile_prefix _).subset hmem)
    · exact hmem

theorem classHeader_lineLocal : classHeader.LineLocal where
  first := fun _ => rfl
  further := by
    intro prev s r h more
    simp only [classHeader, Option.bind_eq_bind, Option.bind_eq_some_iff, Option.guard_eq_some',
      Prod.exists] at h
    obtain ⟨-, hprev, t, hlit, t', hsp, name, t'', hword, t₃, hcolon, t₄, hend, -⟩ := h
    have hsp' := Read.spaces1_lines hsp (Read.ne_nil_of_word hword) (10 :: more)
    obtain ⟨t₅, hend'⟩ := exists_lineEnd_lines hend more
    let behind := (Read.parenthesized (Read.spaces (t'' ++ 10 :: more))).getD
      ([], Read.spaces (t'' ++ 10 :: more))
    have hcolon' : Read.byte 0x3A behind.2 = some (t₃ ++ 10 :: more) := by
      simp only [behind]
      cases hparen : Read.parenthesized (Read.spaces t'') with
      | none =>
        -- the colon follows the name at once, so no base list begins there either
        rw [hparen] at hcolon
        have hnext : Read.byte 0x3A (Read.spaces t'') = some t₃ := hcolon
        have hgap := Read.spaces_lines (Read.ne_nil_of_byte hnext) (10 :: more)
        rw [hgap, Read.byte_eq_some hnext]
        rfl
      | some bases =>
        rw [hparen] at hcolon
        have hgap : Read.spaces t'' ≠ [] := by
          intro hnil
          rw [hnil] at hparen
          cases hparen
        rw [Read.spaces_lines hgap, Read.parenthesized_lines hparen]
        exact Read.byte_lines hcolon _
    refine ⟨((name, behind.1), t₅), ?_⟩
    simp only [classHeader, hprev, Read.literal_lines hlit, hsp', Read.word_lines hword,
      Option.bind_eq_bind, Option.bind_some, Read.guard_true]
    show (Read.byte 0x3A behind.2).bind _ = _
    rw [hcolon', Option.bind_some, hend']
    rfl

end Python

/-! ## Candidates and the language that is detected -/

namespace Language

theorem mem_candidates_iff {code : Bytes} {l : Language} : l ∈ candidates code ↔
    (l = java ∧ (heritage.occursIn code = true ∨ statementEnd.occursIn code = true)) ∨
    (l = php ∧ (openTag.occursIn code = true ∨ functionCall.occursIn code = true)) ∨
    (l = python ∧ (Python.classHeader.occursIn code = true ∨ definition.occursIn code = true)) := by
  simp [candidates, and_comm]

/-- Whatever keeps the occurrences of every shape keeps the candidates. -/
theorem mem_candidates_of_kept {code code' : Bytes}
    (hkept : ∀ {α : Type} {form : Form α}, form.LineLocal →
      form.occursIn code = true → form.occursIn code' = true)
    {l : Language} (h : l ∈ candidates code) : l ∈ candidates code' := by
  rw [mem_candidates_iff] at h ⊢
  refine h.imp ?java (Or.imp ?php ?python)
  case java =>
    exact And.imp_right (Or.imp (hkept heritage_lineLocal) (hkept statementEnd_lineLocal))
  case php =>
    exact And.imp_right (Or.imp (hkept openTag_lineLocal) (hkept functionCall_lineLocal))
  case python =>
    exact And.imp_right (Or.imp (hkept Python.classHeader_lineLocal) (hkept definition_lineLocal))

/-- A language that either of two texts shows is shown by the one in front of the other. -/
theorem mem_candidates_lines {a b : Bytes} {l : Language}
    (h : l ∈ candidates a ∨ l ∈ candidates b) : l ∈ candidates (a ++ 10 :: b) := by
  rcases h with h | h
  · exact mem_candidates_of_kept (fun hform ha => hform.occursIn_left ha b) h
  · exact mem_candidates_of_kept (fun hform hb => hform.occursIn_right hb a) h

/-- The languages in the order of preference, and behind them the unknown one. -/
def preference : List Language := [java, php, python, unknown]

/-- The place of a language in the order of preference. -/
def rank (l : Language) : Nat := preference.idxOf l

theorem detect_of_candidates {filename : Bytes} (hname : ofFilename filename = unknown)
    (code : Bytes) : detect code filename = (candidates code).head?.getD unknown := by
  simp [detect, hname, unknown]

/-- The first candidate in the order of preference is detected. -/
theorem rank_detect {filename : Bytes} (hname : ofFilename filename = unknown) (code : Bytes) :
    detect code filename ∈ preference ∧
    rank (detect code filename) =
      if java ∈ candidates code then 0 else if php ∈ candidates code then 1
      else if python ∈ candidates code then 2 else 3 := by
  rw [detect_of_candidates hname, candidates]
  -- each language is there or not
  generalize (heritage.occursIn code || statementEnd.occursIn code) = isJava
  generalize (openTag.occursIn code || functionCall.occursIn code) = isPhp
  generalize (Python.classHeader.occursIn code || definition.occursIn code) = isPython
  revert isJava isPhp isPython
  decide +kernel

/-- A text that shows all that another shows is taken for no later language. -/
theorem rank_detect_le {filename : Bytes} (hname : ofFilename filename = unknown)
    {code code' : Bytes} (h : ∀ l ∈ candidates code, l ∈ candidates code') :
    rank (detect code' filename) ≤ rank (detect code filename) := by
  rw [(rank_detect hname code).2, (rank_detect hname code').2]
  have hjava := h java
  have hphp := h php
  have hpython := h python
  split_ifs <;> simp_all

/-- Only the unknown language is last. -/
theorem rank_lt_iff {l : Language} (h : l ∈ preference) : rank l < 3 ↔ l ≠ unknown := by
  revert l
  decide +kernel

/-- **Detection only gains from more lines.** Whatever either of two texts shows is shown by the two
texts on separate lines. So where the file name tells nothing, more text in front or behind can only
make the language an earlier one in the order of preference, and a known one does not get lost. -/
theorem detection_monotone (a b : Bytes) :
    (∀ l, l ∈ candidates a ∨ l ∈ candidates b → l ∈ candidates (a ++ 10 :: b)) ∧
    (∀ filename, ofFilename filename = unknown →
      detect (a ++ 10 :: b) filename ∈ preference ∧
      rank (detect (a ++ 10 :: b) filename) ≤ rank (detect a filename) ∧
      rank (detect (a ++ 10 :: b) filename) ≤ rank (detect b filename) ∧
      (detect a filename ≠ unknown ∨ detect b filename ≠ unknown →
        detect (a ++ 10 :: b) filename ≠ unknown)) := by
  refine ⟨fun l => mem_candidates_lines, ?_⟩
  intro filename hname
  have hleft : rank (detect (a ++ 10 :: b) filename) ≤ rank (detect a filename) :=
    rank_detect_le hname fun l hl => mem_candidates_lines (.inl hl)
  have hright : rank (detect (a ++ 10 :: b) filename) ≤ rank (detect b filename) :=
    rank_detect_le hname fun l hl => mem_candidates_lines (.inr hl)
  have hmem := fun code => (rank_detect hname code).1
  refine ⟨hmem _, hleft, hright, ?_⟩
  rw [← rank_lt_iff (hmem a), ← rank_lt_iff (hmem b), ← rank_lt_iff (hmem (a ++ 10 :: b))]
  omega

/-- A class header at the very end and a statement in the line behind it: both are seen, and what
looked like Python alone looks like Java. -/
theorem detection_monotone_seam :
    let a := Bytes.ofString "class A:"
    let b := Bytes.ofString "x = 1;"
    let filename := Bytes.ofString "notes.txt"
    python ∈ candidates (a ++ 10 :: b) ∧ java ∈ candidates (a ++ 10 :: b) ∧
    rank (detect (a ++ 10 :: b) filename) ≤ rank (detect a filename) ∧
    detect a filename = python ∧ detect (a ++ 10 :: b) filename ≠ unknown := by
  intro a b filename
  obtain ⟨hkept, hdetect⟩ := detection_monotone a b
  have hpython : detect a filename = python := by decide +kernel
  obtain ⟨-, hrank, -, hknown⟩ := hdetect filename (by decide +kernel)
  refine ⟨hkept _ (.inl (by decide +kernel)), hkept _ (.inr (by decide +kernel)), hrank, hpython, ?_⟩
  apply hknown
  rw [hpython]
  exact .inl (by decide)

end Language

end ClassOutline
