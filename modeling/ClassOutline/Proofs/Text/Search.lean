import ClassOutline.Proofs.Text.Reading

/-!
# Searching a text stretch by stretch

A search goes through a text byte by byte. To say what it finds in a text that was put together from
pieces, it is enough to know two things of each piece: that the form is *silent* there, at every
place of the piece and with what follows in view, or that it reads the piece as one occurrence. The
laws below let a search skip the first kind (`sightings_silent`) and take the second
(`sightings_hit`), and give the byte that stands before the next piece (`Bytes.lastAfter`).

What a search finds is looked at without offsets here (`Form.sightings`).

Two kinds of form make silence easy to show:

- a form that begins a line (`Form.LineLed`) is silent inside lines, so that a text made of lines is
  searched line by line (`LineLed.sightings_miss`, `LineLed.sightings_line`);
- a form that begins with one of some words (`Form.LedBy` in `ClassOutline.Proofs.Text.Words`).
-/

namespace ClassOutline

/-! ## The byte before a place -/

/-- The byte before the place behind `u`, when `prev` stands before `u`. -/
def Bytes.lastAfter (prev : Option UInt8) (u : Bytes) : Option UInt8 :=
  u.foldl (fun _ b => some b) prev

namespace Bytes

@[simp] theorem lastAfter_nil (prev : Option UInt8) : lastAfter prev [] = prev := rfl

@[simp] theorem lastAfter_cons (prev : Option UInt8) (b : UInt8) (u : Bytes) :
    lastAfter prev (b :: u) = lastAfter (some b) u := rfl

@[simp] theorem lastAfter_append (prev : Option UInt8) (u v : Bytes) :
    lastAfter prev (u ++ v) = lastAfter (lastAfter prev u) v :=
  List.foldl_append

theorem lastAfter_mem {u : Bytes} (hne : u ≠ []) (prev : Option UInt8) :
    ∃ b ∈ u, lastAfter prev u = some b := by
  induction u generalizing prev with
  | nil => exact absurd rfl hne
  | cons b u ih =>
    cases u with
    | nil => exact ⟨b, List.mem_cons_self, rfl⟩
    | cons c u =>
      obtain ⟨d, hd, hlast⟩ := ih (List.cons_ne_nil c u) (some b)
      exact ⟨d, List.mem_cons_of_mem _ hd, hlast⟩

/-- Behind lines one after another stands a newline, if one stood before them. -/
theorem lastAfter_flatMap {β : Type} {source : β → Bytes}
    (h : ∀ b, lastAfter (some 10) (source b) = some 10) (lines : List β) :
    lastAfter (some 10) (lines.flatMap source) = some 10 := by
  induction lines with
  | nil => rfl
  | cons b lines ih => rw [List.flatMap_cons, lastAfter_append, h, ih]

end Bytes

namespace Form

variable {α : Type} {form : Form α}

/-! ## Silence -/

/-- The form is read at no place of `u`, when `prev` stands before `u` and `s` behind it. -/
def Silent (form : Form α) : (prev : Option UInt8) → (u s : Bytes) → Prop
  | _, [], _ => True
  | prev, b :: u, s => form prev (b :: (u ++ s)) = none ∧ Silent form (some b) u s

/-- Silence in two stretches is silence in both together. -/
theorem Silent.append {prev : Option UInt8} {u v s : Bytes} (hu : form.Silent prev u (v ++ s))
    (hv : form.Silent (Bytes.lastAfter prev u) v s) : form.Silent prev (u ++ v) s := by
  induction u generalizing prev with
  | nil => exact hv
  | cons b u ih =>
    refine ⟨?_, ih hu.2 hv⟩
    show form prev (b :: (u ++ v ++ s)) = none
    rw [List.append_assoc]
    exact hu.1

/-! ## Occurrences -/

theorem occurrencesFrom_skip (form : Form α) (pos : Nat) (prev : Option UInt8) (u s : Bytes) :
    form.occurrencesFrom u.length pos prev (u ++ s) =
      form.occurrencesFrom 0 (pos + u.length) (Bytes.lastAfter prev u) s := by
  induction u generalizing pos prev with
  | nil => rfl
  | cons b u ih =>
    rw [List.length_cons, List.cons_append, occurrencesFrom, ih, Bytes.lastAfter_cons]
    congr 1
    omega

theorem occurrencesFrom_silent {prev : Option UInt8} {u s : Bytes} (h : form.Silent prev u s)
    (pos : Nat) :
    form.occurrencesFrom 0 pos prev (u ++ s) =
      form.occurrencesFrom 0 (pos + u.length) (Bytes.lastAfter prev u) s := by
  induction u generalizing prev pos with
  | nil => rfl
  | cons b u ih =>
    rw [List.cons_append, occurrencesFrom, h.1]
    show form.occurrencesFrom 0 (pos + 1) (some b) (u ++ s) = _
    rw [ih h.2, Bytes.lastAfter_cons, List.length_cons]
    congr 1
    omega

/-- A stretch that the form reads is an occurrence, and the search goes on behind it. -/
theorem occurrencesFrom_hit {prev : Option UInt8} {u s : Bytes} {value : α} (hne : u ≠ [])
    (h : form prev (u ++ s) = some (value, s)) (pos : Nat) :
    form.occurrencesFrom 0 pos prev (u ++ s) =
      ⟨pos, u ++ s, value, s⟩ ::
        form.occurrencesFrom 0 (pos + u.length) (Bytes.lastAfter prev u) s := by
  cases u with
  | nil => exact absurd rfl hne
  | cons b u =>
    -- the search counts down what the form took, less the byte it stands at
    have hlength : (u ++ s).length - s.length = u.length := by
      rw [List.length_append]
      omega
    rw [List.cons_append] at h ⊢
    rw [occurrencesFrom, h]
    simp only [hlength, occurrencesFrom_skip, Bytes.lastAfter_cons, List.length_cons]
    congr 2
    omega

/-! ## The first occurrence -/

/-- The first occurrence lies behind a silent stretch. -/
theorem firstFrom_silent {prev : Option UInt8} {u s : Bytes} (h : form.Silent prev u s)
    (pos : Nat) :
    form.firstFrom pos prev (u ++ s) =
      form.firstFrom (pos + u.length) (Bytes.lastAfter prev u) s := by
  induction u generalizing prev pos with
  | nil => rfl
  | cons b u ih =>
    rw [List.cons_append, firstFrom, h.1]
    show form.firstFrom (pos + 1) (some b) (u ++ s) = _
    rw [ih h.2, Bytes.lastAfter_cons, List.length_cons]
    congr 1
    omega

theorem first?_eq_none {u : Bytes} (h : form.Silent none u []) : form.first? u = none := by
  have hfirst := firstFrom_silent h 0
  rw [List.append_nil] at hfirst
  exact hfirst

/-- The first occurrence is what the form reads behind a silent stretch. -/
theorem first?_eq_some {u t rest : Bytes} {value : α} (hne : t ≠ []) (h : form.Silent none u t)
    (hit : form (Bytes.lastAfter none u) t = some (value, rest)) :
    form.first? (u ++ t) = some ⟨u.length, t, value, rest⟩ := by
  rw [first?, firstFrom_silent h]
  cases t with
  | nil => exact absurd rfl hne
  | cons b t => rw [firstFrom, hit, Nat.zero_add]

/-! ## Occurrences without offsets -/

/-- What a search finds in the rest `s` of a text, `prev` being the byte before: at each occurrence
the text from there on, what was read, and the text behind. -/
def sightings (form : Form α) (prev : Option UInt8) (s : Bytes) : List (Bytes × α × Bytes) :=
  (form.occurrencesFrom 0 0 prev s).map fun o => (o.here, o.value, o.rest)

/-- Offsets make no difference to what is found. -/
theorem map_occurrencesFrom_pos (form : Form α) (skip pos pos' : Nat) (prev : Option UInt8)
    (s : Bytes) :
    (form.occurrencesFrom skip pos prev s).map (fun o => (o.here, o.value, o.rest)) =
      (form.occurrencesFrom skip pos' prev s).map (fun o => (o.here, o.value, o.rest)) := by
  induction s generalizing skip pos pos' prev with
  | nil => simp [occurrencesFrom]
  | cons b s ih =>
    cases skip with
    | succ skip => exact ih ..
    | zero =>
      rw [occurrencesFrom, occurrencesFrom]
      cases form prev (b :: s) with
      | none => exact ih ..
      | some r => simp only [List.map_cons]; rw [ih _ (pos + 1) (pos' + 1)]

theorem sightings_nil (form : Form α) (prev : Option UInt8) : form.sightings prev [] = [] := by
  simp [sightings, occurrencesFrom]

/-- A search passes over a silent stretch. -/
theorem sightings_silent {prev : Option UInt8} {u s : Bytes} (h : form.Silent prev u s) :
    form.sightings prev (u ++ s) = form.sightings (Bytes.lastAfter prev u) s := by
  rw [sightings, occurrencesFrom_silent h]
  exact map_occurrencesFrom_pos ..

/-- A search takes a stretch that the form reads. -/
theorem sightings_hit {prev : Option UInt8} {u s : Bytes} {value : α} (hne : u ≠ [])
    (h : form prev (u ++ s) = some (value, s)) :
    form.sightings prev (u ++ s) =
      (u ++ s, value, s) :: form.sightings (Bytes.lastAfter prev u) s := by
  rw [sightings, occurrencesFrom_hit hne h, List.map_cons]
  congr 1
  exact map_occurrencesFrom_pos ..

/-- Of the byte before, only what the form sees in it matters. -/
theorem sightings_congr {prev prev' : Option UInt8} (h : ∀ s, form prev s = form prev' s)
    (s : Bytes) : form.sightings prev s = form.sightings prev' s := by
  cases s with
  | nil => rw [sightings_nil, sightings_nil]
  | cons b s => rw [sightings, sightings, occurrencesFrom, occurrencesFrom, h]

/-- What a search reads in the rest of a text. -/
def valuesFrom (form : Form α) (prev : Option UInt8) (s : Bytes) : List α :=
  (form.sightings prev s).map fun o => o.2.1

theorem values_eq_valuesFrom (form : Form α) (s : Bytes) :
    form.values s = form.valuesFrom none s := by
  simp [values, valuesFrom, sightings, occurrences]

theorem valuesFrom_nil (form : Form α) (prev : Option UInt8) : form.valuesFrom prev [] = [] := by
  rw [valuesFrom, sightings_nil, List.map_nil]

theorem valuesFrom_silent {prev : Option UInt8} {u s : Bytes} (h : form.Silent prev u s) :
    form.valuesFrom prev (u ++ s) = form.valuesFrom (Bytes.lastAfter prev u) s := by
  rw [valuesFrom, sightings_silent h, valuesFrom]

theorem valuesFrom_hit {prev : Option UInt8} {u s : Bytes} {value : α} (hne : u ≠ [])
    (h : form prev (u ++ s) = some (value, s)) :
    form.valuesFrom prev (u ++ s) = value :: form.valuesFrom (Bytes.lastAfter prev u) s := by
  rw [valuesFrom, sightings_hit hne h, List.map_cons, valuesFrom]

/-- A line with one occurrence in it, and silence before and behind. -/
theorem valuesFrom_line {indent u gap s : Bytes} {value : α}
    (hindent : form.Silent (some 10) indent (u ++ (gap ++ s))) (hne : u ≠ [])
    (hit : form (Bytes.lastAfter (some 10) indent) (u ++ (gap ++ s)) = some (value, gap ++ s))
    (hgap : form.Silent (Bytes.lastAfter (some 10) (indent ++ u)) gap s)
    (hlast : Bytes.lastAfter (some 10) (indent ++ (u ++ gap)) = some 10) :
    form.valuesFrom (some 10) (indent ++ (u ++ (gap ++ s))) =
      [value] ++ form.valuesFrom (some 10) s := by
  simp only [Bytes.lastAfter_append] at hgap hlast
  rw [valuesFrom_silent hindent, valuesFrom_hit hne hit, valuesFrom_silent hgap, hlast]
  rfl

/-- Lines are searched one by one, if what is read in a line does not depend on what follows it. -/
theorem valuesFrom_flatMap {β : Type} {source : β → Bytes} {f : β → List α}
    (h : ∀ b s, form.valuesFrom (some 10) (source b ++ s) =
      f b ++ form.valuesFrom (some 10) s) (lines : List β) (s : Bytes) :
    form.valuesFrom (some 10) (lines.flatMap source ++ s) =
      lines.flatMap f ++ form.valuesFrom (some 10) s := by
  induction lines with
  | nil => rfl
  | cons b lines ih =>
    rw [List.flatMap_cons, List.flatMap_cons, List.append_assoc, List.append_assoc, h, ih]

/-- Lines in which nothing is read are passed over. -/
theorem valuesFrom_flatMap_miss {β : Type} {source : β → Bytes}
    (h : ∀ b s, form.valuesFrom (some 10) (source b ++ s) = form.valuesFrom (some 10) s)
    (lines : List β) (s : Bytes) :
    form.valuesFrom (some 10) (lines.flatMap source ++ s) = form.valuesFrom (some 10) s := by
  induction lines with
  | nil => rfl
  | cons b lines ih => rw [List.flatMap_cons, List.append_assoc, h, ih]

/-! ## Forms that begin a line -/

/-- The form is read at the start of a line only. -/
def LineLed (form : Form α) : Prop :=
  ∀ prev s, Read.lineStart prev = false → form prev s = none

/-- Such a form is silent inside a line, up to and including the newline. -/
theorem LineLed.silent_inside (hled : form.LineLed) {b : UInt8} (hb : b ≠ 10) {u : Bytes}
    (hu : (10 : UInt8) ∉ u) (s : Bytes) : form.Silent (some b) (u ++ [10]) s := by
  have hstart : ∀ c : UInt8, c ≠ 10 → Read.lineStart (some c) = false := by
    intro c hc
    simpa [Read.lineStart] using hc
  -- the byte before is no newline at any place, so it is generalised over
  induction u generalizing b with
  | nil => exact ⟨hled _ _ (hstart b hb), trivial⟩
  | cons c u ih =>
    simp only [List.mem_cons, not_or] at hu
    exact ⟨hled _ _ (hstart b hb), ih (Ne.symm hu.1) hu.2⟩

/-- A line at whose start the form is not read is silent. -/
theorem LineLed.silent_line (hled : form.LineLed) {prev : Option UInt8} {l s : Bytes}
    (hl : (10 : UInt8) ∉ l) (hmiss : form prev (l ++ 10 :: s) = none) :
    form.Silent prev (l ++ [10]) s := by
  cases l with
  | nil => exact ⟨hmiss, trivial⟩
  | cons b l =>
    simp only [List.mem_cons, not_or] at hl
    refine ⟨?_, hled.silent_inside (Ne.symm hl.1) hl.2 s⟩
    show form prev (b :: (l ++ [10] ++ s)) = none
    rw [List.append_assoc]
    exact hmiss

/-- A search passes over a line at whose start the form is not read. -/
theorem LineLed.sightings_miss (hled : form.LineLed) {prev : Option UInt8} {l s : Bytes}
    (hl : (10 : UInt8) ∉ l) (hmiss : form prev (l ++ 10 :: s) = none) :
    form.sightings prev (l ++ 10 :: s) = form.sightings (some 10) s := by
  have hsilent := sightings_silent (hled.silent_line hl hmiss)
  rw [List.append_assoc, Bytes.lastAfter_append] at hsilent
  exact hsilent

/-- A search takes what the form reads at the start of a line, and goes on with the next line. -/
theorem LineLed.sightings_line (hled : form.LineLed) {prev : Option UInt8} {u v s : Bytes}
    {value : α} (hne : u ≠ []) (hu : (10 : UInt8) ∉ u) (hv : (10 : UInt8) ∉ v)
    (hit : form prev (u ++ (v ++ 10 :: s)) = some (value, v ++ 10 :: s)) :
    form.sightings prev (u ++ (v ++ 10 :: s)) =
      (u ++ (v ++ 10 :: s), value, v ++ 10 :: s) :: form.sightings (some 10) s := by
  rw [sightings_hit hne hit]
  congr 1
  -- the search stands inside the line now, and the form is silent there
  obtain ⟨b, hb, hlast⟩ := Bytes.lastAfter_mem hne prev
  have hb10 : b ≠ 10 := by
    rintro rfl
    exact hu hb
  have hsilent := sightings_silent (hled.silent_inside hb10 hv s)
  rw [List.append_assoc, Bytes.lastAfter_append] at hsilent
  rw [hlast]
  exact hsilent

theorem LineLed.valuesFrom_miss (hled : form.LineLed) {prev : Option UInt8} {l s : Bytes}
    (hl : (10 : UInt8) ∉ l) (hmiss : form prev (l ++ 10 :: s) = none) :
    form.valuesFrom prev (l ++ 10 :: s) = form.valuesFrom (some 10) s := by
  rw [valuesFrom, hled.sightings_miss hl hmiss, valuesFrom]

theorem LineLed.valuesFrom_hit (hled : form.LineLed) {prev : Option UInt8} {u v s : Bytes}
    {value : α} (hne : u ≠ []) (hu : (10 : UInt8) ∉ u) (hv : (10 : UInt8) ∉ v)
    (hit : form prev (u ++ (v ++ 10 :: s)) = some (value, v ++ 10 :: s)) :
    form.valuesFrom prev (u ++ (v ++ 10 :: s)) = [value] ++ form.valuesFrom (some 10) s := by
  rw [valuesFrom, hled.sightings_line hne hu hv hit, List.map_cons, valuesFrom]
  rfl

end Form

end ClassOutline
