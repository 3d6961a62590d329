import ClassOutline.Proofs.BlockLayout
import Mathlib.Data.Nat.Find
import Mathlib.Order.Bounds.Basic

/-!
# The brace counter from every offset

A class block is looked for from its opening brace, and `ClassOutline.Proofs.BlockLayout` follows the
counter from there. The counter itself may begin anywhere: in front of the first brace, inside a
block, or at a stray closing brace. In the last case the depth falls below zero, and the counter
goes on all the same until a closing brace brings it back.

The number that the counter holds at a place is the one it began with plus the depth of the text in
between, whatever its sign (`Returns`). It is compared with zero at closing braces only. One step of
the counter and one byte of the text change both sides alike (`closeFrom_cons`, `returns_succ`), so
the counter stops at the least place where the sum is zero (`closeFrom_eq_some_iff`).

## Main results

- `Block.closeFrom_eq_some_iff`: where the counter stops, for every number it may begin with
- `Block.matchingBrace_exact`: the brace that is found from an offset, for every text and every
  integer
-/

namespace ClassOutline.Block

/-! ## One byte -/

/-- At `k` stands a closing brace, and behind it a counter that began with `d` is at zero. -/
def Returns (d : Int) (s : Bytes) (k : Nat) : Prop :=
  s[k]? = some closing ∧ d + depth (s.take (k + 1)) = 0

variable {d : Int} {b : UInt8} {s : Bytes} {k : Nat}

theorem returns_zero : Returns d (b :: s) 0 ↔ b = closing ∧ d = 1 := by
  simp only [Returns, List.getElem?_cons_zero, Option.some.injEq, List.take_succ_cons,
    List.take_zero]
  refine and_congr_right ?_
  rintro rfl
  rw [depth_closing, depth_nil]
  omega

/-- What a counter does behind a byte, another does from there that begins with the new depth. -/
theorem returns_succ : Returns d (b :: s) (k + 1) ↔ Returns (d + depth [b]) s k := by
  have hsplit : depth (b :: s.take (k + 1)) = depth [b] + depth (s.take (k + 1)) :=
    depth_append [b] _
  simp only [Returns, List.getElem?_cons_succ, List.take_succ_cons, hsplit, Int.add_assoc]

/-- One step of the counter. -/
theorem closeFrom_cons (d : Int) (b : UInt8) (s : Bytes) :
    closeFrom d (b :: s) =
      if b = closing ∧ d = 1 then some 0 else (closeFrom (d + depth [b]) s).map (· + 1) := by
  rw [closeFrom]
  by_cases hopen : b = opening
  · subst hopen
    have hne : opening ≠ closing := by decide
    simp [hne]
  · by_cases hclose : b = closing
    · subst hclose
      -- the only byte at which the depth is looked at
      by_cases hd : d = 1
      · simp [hd, hopen]
      · simp [hd, hopen, Int.sub_eq_add_neg]
    · have hplain : depth [b] = 0 := depth_plain (by simp [isBrace, hopen, hclose]) []
      simp [hopen, hclose, hplain]

/-! ## The whole text -/

/-- A place that is not the first one is the least exactly if it is the least behind the first
byte. -/
theorem isLeast_returns_succ (hfirst : ¬ (b = closing ∧ d = 1)) :
    IsLeast {k | Returns d (b :: s) k} (k + 1) ↔
      IsLeast {k | Returns (d + depth [b]) s k} k := by
  constructor
  · rintro ⟨hk, hleast⟩
    refine ⟨returns_succ.mp hk, ?_⟩
    intro j hj
    exact Nat.le_of_succ_le_succ (hleast (returns_succ.mpr hj))
  · rintro ⟨hk, hleast⟩
    refine ⟨returns_succ.mpr hk, ?_⟩
    intro j hj
    cases j with
    | zero => exact absurd (returns_zero.mp hj) hfirst
    | succ j => exact Nat.succ_le_succ (hleast (returns_succ.mp hj))

/-- **The counter stops at the least place where it is back at zero**, whatever it began with. -/
theorem closeFrom_eq_some_iff : closeFrom d s = some k ↔ IsLeast {k | Returns d s k} k := by
  -- each byte changes the number that the counter holds, so it is generalised over
  induction s generalizing d k with
  | nil =>
    constructor
    · intro h
      cases h
    · rintro ⟨⟨h, -⟩, -⟩
      cases h
  | cons b s ih =>
    rw [closeFrom_cons]
    split
    · next hfirst =>
      -- nothing is less than the first place
      have hzero : Returns d (b :: s) 0 := returns_zero.mpr hfirst
      constructor
      · rintro ⟨⟩
        exact ⟨hzero, fun _ _ => Nat.zero_le _⟩
      · rintro ⟨-, hleast⟩
        rw [Nat.le_zero.mp (hleast hzero)]
    · next hfirst =>
      cases k with
      | zero =>
        constructor
        · intro h
          obtain ⟨m, -, hm⟩ := Option.map_eq_some_iff.mp h
          cases hm
        · rintro ⟨h, -⟩
          exact absurd (returns_zero.mp h) hfirst
      | succ k =>
        rw [isLeast_returns_succ hfirst, ← ih]
        simp

/-- Text without braces in front changes where the counter stops, and nothing else. -/
theorem closeFrom_append_plain {u : Bytes} (hu : ∀ b ∈ u, isBrace b = false) (d : Int)
    (s : Bytes) : closeFrom d (u ++ s) = (closeFrom d s).map (· + u.length) := by
  induction u with
  | nil => simp
  | cons b u ih =>
    have hb := hu b List.mem_cons_self
    have hclose : b ≠ closing := by
      rintro rfl
      cases hb
    rw [List.cons_append, closeFrom_cons, if_neg (fun h => hclose h.1), depth_plain hb, depth_nil,
      Int.add_zero, ih fun c hc => hu c (List.mem_cons_of_mem _ hc), Option.map_map]
    congr 1

/-! ## Offsets of a text -/

/-- An offset of a byte of the text. -/
def InRange (text : Bytes) (start : Int) : Prop := 0 ≤ start ∧ start < text.length

/-- At `i`, not before `start`, stands a closing brace, and from `start` up to it as many braces are
opened as closed. -/
def EvenAt (text : Bytes) (start : Int) (i : Nat) : Prop :=
  start ≤ i ∧ text[i]? = some closing ∧
    (text.slice start.toNat (i + 1)).count opening = (text.slice start.toNat (i + 1)).count closing

variable {text : Bytes} {start : Int} {i n : Nat}

theorem matchingBrace?_of_inRange (h : InRange text start) :
    matchingBrace? text start =
      (closeFrom 0 (text.drop start.toNat)).map (· + start.toNat) := by
  obtain ⟨n, rfl⟩ := Int.eq_ofNat_of_zero_le h.1
  exact matchingBrace?_of_lt (Int.ofNat_lt.mp h.2)

theorem matchingBrace?_of_not_inRange (h : ¬ InRange text start) :
    matchingBrace? text start = none := by
  apply if_pos
  simp only [InRange, not_and_or, Int.not_le, Int.not_lt] at h
  simpa using h

/-- Evenness in a text is a return to zero in what is left of it at the offset. -/
theorem evenAt_iff_returns : EvenAt text n (k + n) ↔ Returns 0 (text.drop n) k := by
  have hslice : text.slice n (k + n + 1) = (text.drop n).take (k + 1) := by
    rw [Bytes.slice]
    congr 1
    omega
  have hat : text[k + n]? = (text.drop n)[k]? := by
    rw [List.getElem?_drop, Nat.add_comm]
  simp only [EvenAt, Returns, Int.toNat_natCast, hslice, hat, depth]
  constructor
  · rintro ⟨-, hclose, hcount⟩
    exact ⟨hclose, by omega⟩
  · rintro ⟨hclose, hcount⟩
    exact ⟨by omega, hclose, by omega⟩

theorem matchingBrace?_isLeast :
    matchingBrace? text start = some i ↔
      InRange text start ∧ IsLeast {i | EvenAt text start i} i := by
  by_cases hrange : InRange text start
  · simp only [hrange, true_and, matchingBrace?_of_inRange hrange, Option.map_eq_some_iff,
      closeFrom_eq_some_iff]
    obtain ⟨n, rfl⟩ := Int.eq_ofNat_of_zero_le hrange.1
    simp only [Int.toNat_natCast]
    -- places of the rest of the text are places of the text, moved by the offset
    constructor
    · rintro ⟨k, ⟨hk, hleast⟩, rfl⟩
      refine ⟨evenAt_iff_returns.mpr hk, ?_⟩
      intro j hj
      obtain ⟨m, rfl⟩ := Nat.exists_eq_add_of_le' (Int.ofNat_le.mp hj.1)
      exact Nat.add_le_add_right (hleast (evenAt_iff_returns.mp hj)) n
    · rintro ⟨hi, hleast⟩
      obtain ⟨k, rfl⟩ := Nat.exists_eq_add_of_le' (Int.ofNat_le.mp hi.1)
      refine ⟨k, ⟨evenAt_iff_returns.mp hi, ?_⟩, rfl⟩
      intro j hj
      exact Nat.le_of_add_le_add_right (hleast (evenAt_iff_returns.mpr hj))
  · simp [hrange, matchingBrace?_of_not_inRange]

/-- Nothing is found from an offset outside the text, or where no place is even. -/
theorem matchingBrace?_eq_none_iff :
    matchingBrace? text start = none ↔ ¬ InRange text start ∨ ∀ i, ¬ EvenAt text start i := by
  constructor
  · intro hnone
    by_cases hrange : InRange text start
    · right
      intro i hi
      -- among the even places there is a least one, and it would have been found
      classical
      have hleast : IsLeast {i | EvenAt text start i} (Nat.find ⟨i, hi⟩) :=
        ⟨Nat.find_spec ⟨i, hi⟩, fun j hj => Nat.find_min' ⟨i, hi⟩ hj⟩
      rw [matchingBrace?_isLeast.mpr ⟨hrange, hleast⟩] at hnone
      cases hnone
    · exact .inl hrange
  · rintro (hrange | hnever)
    · exact matchingBrace?_of_not_inRange hrange
    · cases hfound : matchingBrace? text start with
      | none => rfl
      | some i => exact absurd (matchingBrace?_isLeast.mp hfound).2.1 (hnever i)

theorem EvenAt.lt_length (h : EvenAt text start i) : i < text.length :=
  (List.getElem?_eq_some_iff.mp h.2.1).1

/-- Without braces in between, it makes no difference where the search begins. -/
theorem matchingBrace?_skip {o : Nat} (hstart : 0 ≤ start) (hle : start ≤ o)
    (ho : o < text.length)
    (hplain : ∀ j : Nat, start ≤ j → j < o → text[j]? ≠ some opening ∧ text[j]? ≠ some closing) :
    matchingBrace? text start = matchingBrace? text o := by
  obtain ⟨n, rfl⟩ := Int.eq_ofNat_of_zero_le hstart
  obtain ⟨k, rfl⟩ := Nat.exists_eq_add_of_le (Int.ofNat_le.mp hle)
  -- what lies between the two offsets
  let gap := (text.drop n).take k
  have hgap : ∀ b ∈ gap, isBrace b = false := by
    intro b hb
    obtain ⟨j, hj⟩ := List.mem_iff_getElem?.mp hb
    have hjk : j < k := by
      have hlt := (List.getElem?_eq_some_iff.mp hj).1
      rw [List.length_take] at hlt
      omega
    rw [List.getElem?_take_of_lt hjk, List.getElem?_drop] at hj
    obtain ⟨hopen, hclose⟩ := hplain (n + j) (by omega) (by omega)
    rw [hj] at hopen hclose
    simp only [ne_eq, Option.some.injEq] at hopen hclose
    simp [isBrace, hopen, hclose]
  have hlength : gap.length = k := by
    rw [List.length_take, List.length_drop]
    omega
  have hsplit : text.drop n = gap ++ text.drop (n + k) := by
    rw [← List.drop_drop, List.take_append_drop]
  rw [matchingBrace?_of_lt (by omega), matchingBrace?_of_lt ho, hsplit,
    closeFrom_append_plain hgap, Option.map_map, hlength]
  congr 1
  funext m
  simp only [Function.comp_apply]
  omega

/-- From an opening brace, every proper beginning of what is found leaves a brace open. -/
theorem count_lt_of_matchingBrace? (hopen : text[start.toNat]? = some opening)
    (h : matchingBrace? text start = some i) {p : Bytes}
    (hp : p <+: text.slice start.toNat (i + 1)) (hne : p ≠ [])
    (hproper : p ≠ text.slice start.toNat (i + 1)) : p.count closing < p.count opening := by
  obtain ⟨hrange, -⟩ := matchingBrace?_isLeast.mp h
  obtain ⟨n, rfl⟩ := Int.eq_ofNat_of_zero_le hrange.1
  rw [Int.toNat_natCast] at *
  obtain ⟨hn, hfirst⟩ := List.getElem?_eq_some_iff.mp hopen
  have hdrop : text.drop n = opening :: text.drop (n + 1) := by
    rw [List.drop_eq_getElem_cons hn, hfirst]
  obtain ⟨inner, hslice, hinner⟩ := ((matchingBrace?_eq_some_iff hdrop).mp h).slice_eq
  rw [hslice] at hp hproper
  exact count_lt_of_prefix hinner hp hne hproper

/-- **The brace that is found from an offset**, for every text and every integer. It is the first
closing brace up to which as many braces are opened as closed, and there is none otherwise. In front
of the first opening brace the search may begin anywhere in the text without a difference, and up
to what it finds a brace is open. -/
theorem matchingBrace_exact (text : Bytes) (start : Int) :
    (∀ i, matchingBrace? text start = some i ↔
      InRange text start ∧ IsLeast {i | EvenAt text start i} i) ∧
    (matchingBrace? text start = none ↔
      ¬ InRange text start ∨ ∀ i, ¬ EvenAt text start i) ∧
    (∀ i, matchingBrace? text start = some i → i < text.length) ∧
    (∀ o : Nat, IsLeast {o : Nat | start ≤ o ∧ text[o]? = some opening} o →
      (∀ j : Nat, start ≤ j → j < o → text[j]? ≠ some closing) →
      matchingBrace? text start = if 0 ≤ start then matchingBrace? text o else none) ∧
    (∀ i, text[start.toNat]? = some opening → matchingBrace? text start = some i →
      ∀ p, p <+: text.slice start.toNat (i + 1) → p ≠ [] →
        p ≠ text.slice start.toNat (i + 1) → p.count closing < p.count opening) := by
  refine ⟨fun i => matchingBrace?_isLeast, matchingBrace?_eq_none_iff, ?range, ?skip, ?unclosed⟩
  case range =>
    intro i hi
    exact (matchingBrace?_isLeast.mp hi).2.1.lt_length
  case skip =>
    intro o ⟨⟨hle, ho⟩, hleast⟩ hclose
    split
    · next hstart =>
      apply matchingBrace?_skip hstart hle (List.getElem?_eq_some_iff.mp ho).1
      intro j hj hlt
      refine ⟨?_, hclose j hj hlt⟩
      intro hopen
      -- an opening brace in between would come before the first one
      exact absurd (hleast ⟨hj, hopen⟩) (Nat.not_le.mpr hlt)
    · next hstart =>
      apply matchingBrace?_of_not_inRange
      exact fun hrange => hstart hrange.1
  case unclosed =>
    intro i hopen hi p hp hne hproper
    exact count_lt_of_matchingBrace? hopen hi hp hne hproper

/-- A stray closing brace in front takes the depth below zero: a later one is found than from the
opening brace, where the same search may begin two bytes earlier. -/
theorem matchingBrace_exact_stray :
    let text := Bytes.ofString "\x7d x\x7b \x7b\x7d \x7d"
    IsLeast {i | EvenAt text 0 i} 6 ∧
    matchingBrace? text 1 = matchingBrace? text 3 ∧ matchingBrace? text 3 = some 8 ∧
    [opening, 0x20, opening].count closing < [opening, 0x20, opening].count opening ∧
    matchingBrace? text (-1) = none := by
  intro text
  have hfound : matchingBrace? text 3 = some 8 := by decide +kernel
  have hfirst : ∀ o : Nat, o < 3 → ¬ ((1 : Int) ≤ o ∧ text[o]? = some opening) := by decide +kernel
  refine ⟨?least, ?skip, hfound, ?unclosed, ?none⟩
  case least => exact (((matchingBrace_exact text 0).1 6).mp (by decide +kernel)).2
  case skip =>
    refine ((matchingBrace_exact text 1).2.2.2.1 3 ⟨by decide +kernel, ?_⟩ ?_).trans
      (if_pos (by decide))
    · intro o ho
      exact Nat.le_of_not_lt fun hlt => hfirst o hlt ho
    · have hnone : ∀ j : Nat, j < 3 → (1 : Int) ≤ j → text[j]? ≠ some closing := by decide +kernel
      exact fun j hj hlt => hnone j hlt hj
  case unclosed =>
    exact (matchingBrace_exact text 3).2.2.2.2 8 (by decide +kernel) hfound _ (by decide +kernel)
      (by decide) (by decide +kernel)
  case none =>
    exact (matchingBrace_exact text (-1)).2.1.mpr (.inl fun h => absurd h.1 (by decide))

end ClassOutline.Block
