import ClassOutline.Proofs.Text.Search

/-!
# Where a search finds something

The laws of `ClassOutline.Proofs.Text.Search` say what a search finds in a text whose pieces are
known. This module goes the other way, for texts of which nothing is known: an occurrence that was
found lies where it says it lies and was read there (`Occurrence.InText`), occurrences do not overlap
(`occurrences_pairwise`), a place where the form is read lies in one of them (`exists_covering`),
and a search comes back empty only from a text in which the form is nowhere read
(`occursIn_of_read`, `firstFrom_eq_some`).

None of these laws asks anything of the form. What a form takes off the front is a matter of the
form (`Form.Consumes`), and gives the occurrence an end behind its start.
-/

namespace ClassOutline

/-! ## Offsets -/

namespace Bytes

/-- The text between two offsets. -/
def slice (s : Bytes) (i j : Nat) : Bytes := (s.drop i).take (j - i)

theorem take_append_slice (s : Bytes) {i j : Nat} (h : i ≤ j) :
    s.take i ++ s.slice i j = s.take j := by
  rw [slice, ← List.take_add]
  congr 1
  omega

/-- Behind something, what stood before it makes no difference. -/
theorem lastAfter_of_ne_nil {u : Bytes} (hne : u ≠ []) (prev prev' : Option UInt8) :
    lastAfter prev u = lastAfter prev' u := by
  cases u with
  | nil => exact absurd rfl hne
  | cons b u => rfl

end Bytes

/-! ## The extent of an occurrence -/

namespace Occurrence

variable {α : Type}

/-- The offset behind the last byte. -/
def stop (o : Occurrence α) : Nat := o.start + (o.here.length - o.rest.length)

/-- The text of an occurrence. -/
def taken (o : Occurrence α) : Bytes := o.here.take (o.here.length - o.rest.length)

/-- The occurrence lies in the text where it says, and the form reads it there. -/
structure InText (form : Form α) (code : Bytes) (o : Occurrence α) : Prop where
  here_eq : code.drop o.start = o.here
  start_le : o.start ≤ code.length
  read : form (Bytes.lastAfter none (code.take o.start)) o.here = some (o.value, o.rest)

end Occurrence

namespace Form

variable {α : Type} {form : Form α}

/-- Whatever the form reads, it takes at least one byte off the front. -/
def Consumes (form : Form α) : Prop :=
  ∀ prev s value rest, form prev s = some (value, rest) → ∃ u, u ≠ [] ∧ s = u ++ rest

/-! ## Silence, place by place -/

/-- A silent stretch is silent at each of its places. -/
theorem Silent.at {prev : Option UInt8} {u v s : Bytes} (h : form.Silent prev (u ++ v) s)
    (hne : v ≠ []) : form (Bytes.lastAfter prev u) (v ++ s) = none := by
  induction u generalizing prev with
  | nil =>
    cases v with
    | nil => exact absurd rfl hne
    | cons b v => exact h.1
  | cons b u ih => exact ih h.2

/-! ## All occurrences -/

theorem mem_occurrencesFrom {skip pos : Nat} {prev : Option UInt8} {s : Bytes} {o : Occurrence α}
    (h : o ∈ form.occurrencesFrom skip pos prev s) :
    ∃ u, s = u ++ o.here ∧ o.here ≠ [] ∧ o.start = pos + u.length ∧
      form (Bytes.lastAfter prev u) o.here = some (o.value, o.rest) := by
  induction s generalizing skip pos prev with
  | nil => simp [occurrencesFrom] at h
  | cons b s ih =>
    -- what is found further on is found one byte later from here
    have hlater : ∀ {skip : Nat}, o ∈ form.occurrencesFrom skip (pos + 1) (some b) s →
        ∃ u, b :: s = u ++ o.here ∧ o.here ≠ [] ∧ o.start = pos + u.length ∧
          form (Bytes.lastAfter prev u) o.here = some (o.value, o.rest) := by
      intro skip ho
      obtain ⟨u, hs, hne, hstart, hread⟩ := ih ho
      refine ⟨b :: u, congrArg (b :: ·) hs, hne, ?_, hread⟩
      rw [hstart, List.length_cons]
      omega
    cases skip with
    | succ skip =>
      rw [occurrencesFrom] at h
      exact hlater h
    | zero =>
      rw [occurrencesFrom] at h
      cases hread : form prev (b :: s) with
      | none =>
        rw [hread] at h
        exact hlater h
      | some r =>
        rw [hread] at h
        rcases List.mem_cons.mp h with rfl | h
        · exact ⟨[], rfl, List.cons_ne_nil b s, rfl, hread⟩
        · exact hlater h

/-- Every occurrence that a search finds is one. -/
theorem inText_of_mem_occurrences {code : Bytes} {o : Occurrence α}
    (h : o ∈ form.occurrences code) : o.InText form code := by
  obtain ⟨u, hcode, -, hstart, hread⟩ := mem_occurrencesFrom h
  rw [Nat.zero_add] at hstart
  have htake : code.take o.start = u := by
    rw [hcode, hstart]
    exact List.take_left
  refine ⟨?_, ?_, ?_⟩
  · rw [hcode, hstart]
    exact List.drop_left
  · rw [hcode, hstart, List.length_append]
    omega
  · rw [htake]
    exact hread

theorem le_start_of_mem_occurrencesFrom {skip pos : Nat} {prev : Option UInt8} {s : Bytes}
    {o : Occurrence α} (h : o ∈ form.occurrencesFrom skip pos prev s) : pos + skip ≤ o.start := by
  induction s generalizing skip pos prev with
  | nil => simp [occurrencesFrom] at h
  | cons b s ih =>
    cases skip with
    | succ skip =>
      rw [occurrencesFrom] at h
      have hle := ih h
      omega
    | zero =>
      rw [occurrencesFrom] at h
      cases hread : form prev (b :: s) with
      | none =>
        rw [hread] at h
        have hle := ih h
        omega
      | some r =>
        rw [hread] at h
        rcases List.mem_cons.mp h with rfl | h
        · exact Nat.le_refl _
        · have hle := ih h
          omega

theorem occurrencesFrom_pairwise (form : Form α) (skip pos : Nat) (prev : Option UInt8)
    (s : Bytes) :
    (form.occurrencesFrom skip pos prev s).Pairwise fun a b => a.stop ≤ b.start := by
  induction s generalizing skip pos prev with
  | nil => simp [occurrencesFrom]
  | cons b s ih =>
    cases skip with
    | succ skip => exact ih ..
    | zero =>
      rw [occurrencesFrom]
      cases hread : form prev (b :: s) with
      | none => exact ih ..
      | some r =>
        refine List.pairwise_cons.mpr ⟨?_, ih ..⟩
        intro o ho
        -- the search skips what the form took, so the next one starts behind it
        have hle := le_start_of_mem_occurrencesFrom ho
        simp only [Occurrence.stop, List.length_cons]
        omega

/-- Occurrences stand in order and do not overlap. -/
theorem occurrences_pairwise (form : Form α) (code : Bytes) :
    (form.occurrences code).Pairwise fun a b => a.stop ≤ b.start :=
  occurrencesFrom_pairwise form 0 0 none code

/-- Of two occurrences one ends before the other begins. -/
theorem stop_le_start_or {code : Bytes} {o p : Occurrence α} (ho : o ∈ form.occurrences code)
    (hp : p ∈ form.occurrences code) (hne : p ≠ o) : p.stop ≤ o.start ∨ o.stop ≤ p.start := by
  have hpairwise := List.pairwise_iff_getElem.mp (occurrences_pairwise form code)
  obtain ⟨i, hi, rfl⟩ := List.getElem_of_mem ho
  obtain ⟨j, hj, rfl⟩ := List.getElem_of_mem hp
  rcases Nat.lt_trichotomy i j with hlt | rfl | hlt
  · exact .inr (hpairwise i j hi hj hlt)
  · exact absurd rfl hne
  · exact .inl (hpairwise j i hj hi hlt)

theorem exists_occurrencesFrom_covering {skip pos : Nat} {prev : Option UInt8} {u v : Bytes}
    {r : α × Bytes} (hskip : skip ≤ u.length) (hne : v ≠ [])
    (h : form (Bytes.lastAfter prev u) v = some r) :
    ∃ o ∈ form.occurrencesFrom skip pos prev (u ++ v), o.start ≤ pos + u.length ∧
      (o.start = pos + u.length ∨ pos + u.length < o.stop) := by
  induction u generalizing skip pos prev with
  | nil =>
    obtain rfl : skip = 0 := Nat.le_zero.mp hskip
    cases v with
    | nil => exact absurd rfl hne
    | cons b v =>
      rw [Bytes.lastAfter_nil] at h
      refine ⟨⟨pos, b :: v, r.1, r.2⟩, ?_, Nat.le_refl _, .inl rfl⟩
      rw [List.nil_append, occurrencesFrom, h]
      exact List.mem_cons_self
  | cons b u ih =>
    rw [List.length_cons] at hskip ⊢
    have hlater : ∀ {skip : Nat}, skip ≤ u.length →
        ∃ o ∈ form.occurrencesFrom skip (pos + 1) (some b) (u ++ v),
          o.start ≤ pos + (u.length + 1) ∧
            (o.start = pos + (u.length + 1) ∨ pos + (u.length + 1) < o.stop) := by
      intro skip hskip
      obtain ⟨o, ho, hcovers⟩ := @ih _ (pos + 1) _ hskip h
      exact ⟨o, ho, by omega, by omega⟩
    cases skip with
    | succ skip => exact hlater (by omega)
    | zero =>
      rw [List.cons_append, occurrencesFrom]
      cases hread : form prev (b :: (u ++ v)) with
      | none => exact hlater (Nat.zero_le _)
      | some r' =>
        by_cases hbefore : (u ++ v).length - r'.2.length ≤ u.length
        · obtain ⟨o, ho, hcovers⟩ := hlater hbefore
          exact ⟨o, List.mem_cons_of_mem _ ho, hcovers⟩
        · -- what is read here goes on beyond the place
          refine ⟨_, List.mem_cons_self, ?_, .inr ?_⟩
          · simp only
            omega
          · simp only [Occurrence.stop, List.length_cons]
            omega

/-- A place where the form is read begins an occurrence or lies in one. -/
theorem exists_covering {u v : Bytes} {r : α × Bytes} (hne : v ≠ [])
    (h : form (Bytes.lastAfter none u) v = some r) :
    ∃ o ∈ form.occurrences (u ++ v), o.start ≤ u.length ∧
      (o.start = u.length ∨ u.length < o.stop) := by
  obtain ⟨o, ho, hbefore, hcovers⟩ :=
    @exists_occurrencesFrom_covering _ form 0 0 none u v r (Nat.zero_le _) hne h
  rw [Nat.zero_add] at hbefore hcovers
  exact ⟨o, ho, hbefore, hcovers⟩

/-- What is said of all readings is said of all values. -/
theorem forall_mem_values {P : α → Prop} (h : ∀ prev s value rest,
    form prev s = some (value, rest) → P value) (code : Bytes) : ∀ v ∈ form.values code, P v := by
  intro v hv
  obtain ⟨o, ho, rfl⟩ := List.mem_map.mp hv
  obtain ⟨u, -, -, -, hread⟩ := mem_occurrencesFrom ho
  exact h _ _ _ _ hread

/-! ## The first occurrence -/

theorem firstFrom_eq_some {pos : Nat} {prev : Option UInt8} {s : Bytes} {o : Occurrence α}
    (h : form.firstFrom pos prev s = some o) :
    ∃ u, s = u ++ o.here ∧ o.start = pos + u.length ∧ form.Silent prev u o.here ∧
      form (Bytes.lastAfter prev u) o.here = some (o.value, o.rest) := by
  induction s generalizing pos prev with
  | nil => cases h
  | cons b s ih =>
    rw [firstFrom] at h
    cases hread : form prev (b :: s) with
    | some r =>
      rw [hread] at h
      obtain rfl := Option.some.inj h
      exact ⟨[], rfl, rfl, trivial, hread⟩
    | none =>
      rw [hread] at h
      obtain ⟨u, rfl, hstart, hsilent, hat⟩ := ih h
      refine ⟨b :: u, rfl, ?_, ⟨hread, hsilent⟩, hat⟩
      rw [hstart, List.length_cons]
      omega

theorem forall_mem_first? {P : α → Prop} (h : ∀ prev s value rest,
    form prev s = some (value, rest) → P value) {code : Bytes} {o : Occurrence α}
    (ho : form.first? code = some o) : P o.value := by
  obtain ⟨u, -, -, -, hread⟩ := firstFrom_eq_some ho
  exact h _ _ _ _ hread

theorem silent_of_firstFrom_eq_none {pos : Nat} {prev : Option UInt8} {s : Bytes}
    (h : form.firstFrom pos prev s = none) : form.Silent prev s [] := by
  induction s generalizing pos prev with
  | nil => trivial
  | cons b s ih =>
    rw [firstFrom] at h
    cases hread : form prev (b :: s) with
    | some r =>
      rw [hread] at h
      cases h
    | none =>
      rw [hread] at h
      refine ⟨?_, ih h⟩
      rw [List.append_nil]
      exact hread

/-- Where a search finds something, there is a place where the form is read. -/
theorem exists_read_of_occurrences_ne_nil {code : Bytes} (h : form.occurrences code ≠ []) :
    ∃ u v r, code = u ++ v ∧ v ≠ [] ∧ form (Bytes.lastAfter none u) v = some r := by
  obtain ⟨o, ho⟩ := List.exists_mem_of_ne_nil _ h
  obtain ⟨u, hcode, hne, -, hread⟩ := mem_occurrencesFrom ho
  exact ⟨u, o.here, _, hcode, hne, hread⟩

/-- A form that is read anywhere in a text occurs in it. -/
theorem occursIn_of_read {u v : Bytes} {r : α × Bytes} (hne : v ≠ [])
    (h : form (Bytes.lastAfter none u) v = some r) : form.occursIn (u ++ v) = true := by
  cases hfirst : form.first? (u ++ v) with
  | some o => simp [occursIn, hfirst]
  | none =>
    have hsilent := (silent_of_firstFrom_eq_none hfirst).at hne
    rw [List.append_nil, h] at hsilent
    cases hsilent

end Form

/-! ## Occurrences with an end -/

namespace Occurrence.InText

variable {α : Type} {form : Form α} {code : Bytes} {o : Occurrence α}

theorem take_append_here (h : o.InText form code) : code.take o.start ++ o.here = code := by
  rw [← h.here_eq, List.take_append_drop]

theorem here_eq_append (h : o.InText form code) (hc : form.Consumes) :
    o.here = o.taken ++ o.rest := by
  obtain ⟨u, -, hsplit⟩ := hc _ _ _ _ h.read
  have hlength : o.here.length - o.rest.length = u.length := by
    rw [hsplit, List.length_append]
    omega
  rw [taken, hlength]
  conv_rhs => rw [hsplit, List.take_left]
  exact hsplit

theorem taken_ne_nil (h : o.InText form code) (hc : form.Consumes) : o.taken ≠ [] := by
  obtain ⟨u, hne, hsplit⟩ := hc _ _ _ _ h.read
  have hsame : u = o.taken :=
    List.append_cancel_right (hsplit.symm.trans (h.here_eq_append hc))
  exact hsame ▸ hne

theorem stop_eq (h : o.InText form code) (hc : form.Consumes) :
    o.stop = o.start + o.taken.length := by
  have hlength := congrArg List.length (h.here_eq_append hc)
  rw [List.length_append] at hlength
  simp only [stop]
  omega

theorem start_lt_stop (h : o.InText form code) (hc : form.Consumes) : o.start < o.stop := by
  have hpos := List.length_pos_iff.mpr (h.taken_ne_nil hc)
  rw [h.stop_eq hc]
  omega

theorem drop_stop (h : o.InText form code) (hc : form.Consumes) : code.drop o.stop = o.rest := by
  rw [h.stop_eq hc, ← List.drop_drop, h.here_eq, h.here_eq_append hc]
  exact List.drop_left

theorem stop_le (h : o.InText form code) (hc : form.Consumes) : o.stop ≤ code.length := by
  have hhere := congrArg List.length (h.here_eq_append hc)
  have hdrop := congrArg List.length h.here_eq
  rw [List.length_append] at hhere
  rw [List.length_drop] at hdrop
  have hstart := h.start_le
  rw [h.stop_eq hc]
  omega

end Occurrence.InText

end ClassOutline
