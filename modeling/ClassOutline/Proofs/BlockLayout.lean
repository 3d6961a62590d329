import ClassOutline.Proofs.BracedClass
import ClassOutline.Proofs.Text.Occurrences

/-!
# Where class blocks lie

The blocks of the class declarations in a text are found by two scans that know nothing of each
other: the search for declarations goes on behind the opening brace of the last one, and from each
such brace the braces are counted up to the one that closes it. This module says how the blocks lie
in the text for all that, whatever the text is.

The counter is tied to balanced text first (`Block.closeFrom_opening_iff`): it stops at a closing
brace exactly where the text between the two braces is balanced. Depth (`Block.depth`) is then the
one measure that both scans share. Inside a block it is greater than in front of the block, and
behind the block it is the same again. That two blocks never cross (`Block.Closes.laminar`) follows
from nothing else.

## Main results

- `Block.matchingBrace?_eq_some_iff`: the brace counter finds the brace that closes a block
- `Block.Closes.laminar`: of two blocks, one ends before the other begins or lies inside it
- `ClassBlock.layout_of_code`: all class blocks of a text, with their places
-/

namespace ClassOutline

/-! ## Depth -/

namespace Block

/-- How many more braces are opened than closed. -/
def depth (s : Bytes) : Int := (s.count opening : Int) - s.count closing

@[simp] theorem depth_nil : depth [] = 0 := rfl

@[simp] theorem depth_append (u v : Bytes) : depth (u ++ v) = depth u + depth v := by
  simp only [depth, List.count_append]
  omega

@[simp] theorem depth_opening (u : Bytes) : depth (opening :: u) = 1 + depth u := by
  have hclose : List.count closing (opening :: u) = List.count closing u :=
    List.count_cons_of_ne (by decide)
  simp only [depth, List.count_cons_self, hclose]
  omega

@[simp] theorem depth_closing (u : Bytes) : depth (closing :: u) = depth u - 1 := by
  have hopen : List.count opening (closing :: u) = List.count opening u :=
    List.count_cons_of_ne (by decide)
  simp only [depth, List.count_cons_self, hopen]
  omega

theorem depth_plain {b : UInt8} (hb : isBrace b = false) (u : Bytes) :
    depth (b :: u) = depth u := by
  simp only [isBrace, Bool.or_eq_false_iff, beq_eq_false_iff_ne] at hb
  simp only [depth, List.count_cons_of_ne hb.1, List.count_cons_of_ne hb.2]

end Block

namespace Balanced

theorem depth_eq_zero {u : Bytes} (hu : Balanced u) : Block.depth u = 0 := by
  induction hu with
  | nil => rfl
  | plain hb _ ih => rw [Block.depth_plain hb, ih]
  | nest _ _ ihu ihv =>
    simp only [Block.depth_opening, Block.depth_append, Block.depth_closing, ihu, ihv]
    omega

/-- Balanced text never closes a brace that it has not opened. -/
theorem depth_prefix_nonneg {u p : Bytes} (hu : Balanced u) (hp : p <+: u) :
    0 ≤ Block.depth p := by
  induction hu generalizing p with
  | nil =>
    rw [List.prefix_nil.mp hp]
    exact Int.le_refl 0
  | @plain b u hb _ ih =>
    rcases List.prefix_cons_iff.mp hp with rfl | ⟨p', rfl, hp'⟩
    · exact Int.le_refl 0
    · rw [Block.depth_plain hb]
      exact ih hp'
  | @nest u v hu hv ihu ihv =>
    rcases List.prefix_cons_iff.mp hp with rfl | ⟨p', rfl, hp'⟩
    · exact Int.le_refl 0
    -- the prefix ends inside the nested text or behind it
    obtain ⟨t, ht⟩ := hp'
    rcases List.append_eq_append_iff.mp ht with ⟨a, ha, -⟩ | ⟨q, rfl, hq⟩
    · have hnonneg := ihu ⟨a, ha.symm⟩
      rw [Block.depth_opening]
      omega
    · rcases List.prefix_cons_iff.mp ⟨t, hq.symm⟩ with rfl | ⟨q', rfl, hq'⟩
      · simp only [List.append_nil, Block.depth_opening, hu.depth_eq_zero]
        omega
      · have hnonneg := ihv hq'
        simp only [Block.depth_opening, Block.depth_append, Block.depth_closing, hu.depth_eq_zero]
        omega

end Balanced

/-! ## The brace counter -/

namespace Block

/-- Text that closes a given number of braces which were open before it, and is balanced between
them. -/
inductive ClosesOuter : Nat → Bytes → Prop where
  | none {u : Bytes} (hu : Balanced u) : ClosesOuter 0 u
  | one {n : Nat} {u v : Bytes} (hu : Balanced u) (hv : ClosesOuter n v) :
      ClosesOuter (n + 1) (u ++ closing :: v)

namespace ClosesOuter

theorem plain {n : Nat} {b : UInt8} {u : Bytes} (hb : isBrace b = false) (h : ClosesOuter n u) :
    ClosesOuter n (b :: u) := by
  cases h with
  | none hu => exact .none (.plain hb hu)
  | one hu hv => exact .one (.plain hb hu) hv

/-- An opening brace is closed by the first of the closing ones. -/
theorem opened {n : Nat} {u : Bytes} (h : ClosesOuter (n + 1) u) :
    ClosesOuter n (opening :: u) := by
  cases h with
  | @one _ u v hu hv =>
    cases hv with
    | none hv => exact .none (.nest hu hv)
    | @one n v w hv hw =>
      have hshape : opening :: (u ++ closing :: (v ++ closing :: w)) =
          opening :: (u ++ closing :: v) ++ closing :: w := by simp
      rw [hshape]
      exact .one (.nest hu hv) hw

theorem closed {n : Nat} {u : Bytes} (h : ClosesOuter n u) :
    ClosesOuter (n + 1) (closing :: u) :=
  .one .nil h

end ClosesOuter

/-- Where the counter stops, it has passed text that closes all outer braces but one. -/
theorem closeFrom_eq_some {n : Nat} {s : Bytes} {k : Nat} (h : closeFrom (n + 1) s = some k) :
    ∃ u t, s = u ++ closing :: t ∧ u.length = k ∧ ClosesOuter n u := by
  induction s generalizing n k with
  | nil => cases h
  | cons b s ih =>
    rw [closeFrom] at h
    split at h
    · next hopen =>
      obtain ⟨m, hm, rfl⟩ := Option.map_eq_some_iff.mp h
      obtain ⟨u, t, rfl, rfl, hu⟩ := ih (n := n + 1) (by exact_mod_cast hm)
      rw [beq_iff_eq] at hopen
      subst hopen
      exact ⟨opening :: u, t, rfl, rfl, hu.opened⟩
    · next hopen =>
      split at h
      · next hclose =>
        rw [beq_iff_eq] at hclose
        subst hclose
        split at h
        · next hlast =>
          -- the last brace that was open
          obtain rfl := Option.some.inj h
          have hn : n = 0 := by
            rw [beq_iff_eq] at hlast
            omega
          subst hn
          exact ⟨[], s, rfl, rfl, .none .nil⟩
        · next hmore =>
          obtain ⟨m, hm, rfl⟩ := Option.map_eq_some_iff.mp h
          cases n with
          | zero => exact absurd rfl hmore
          | succ n =>
            rw [Int.add_sub_cancel] at hm
            obtain ⟨u, t, rfl, rfl, hu⟩ := ih (by exact_mod_cast hm)
            exact ⟨closing :: u, t, rfl, rfl, hu.closed⟩
      · next hclose =>
        obtain ⟨m, hm, rfl⟩ := Option.map_eq_some_iff.mp h
        obtain ⟨u, t, rfl, rfl, hu⟩ := ih hm
        have hb : isBrace b = false := by simp [isBrace, hopen, hclose]
        exact ⟨b :: u, t, rfl, rfl, hu.plain hb⟩

/-- From an opening brace, the counter stops exactly at the brace that closes it. -/
theorem closeFrom_opening_iff {s : Bytes} {k : Nat} :
    closeFrom 0 (opening :: s) = some k ↔
      ∃ u t, s = u ++ closing :: t ∧ Balanced u ∧ k = u.length + 1 := by
  have hfirst : closeFrom 0 (opening :: s) = (closeFrom 1 s).map (· + 1) := rfl
  rw [hfirst, Option.map_eq_some_iff]
  constructor
  · rintro ⟨m, hm, rfl⟩
    obtain ⟨u, t, rfl, rfl, hu⟩ := closeFrom_eq_some (n := 0) hm
    cases hu with
    | none hu => exact ⟨u, t, rfl, hu, rfl⟩
  · rintro ⟨u, t, rfl, hu, rfl⟩
    have hnext : closeFrom 1 (closing :: t) = some 0 := rfl
    refine ⟨u.length, ?_, rfl⟩
    rw [closeFrom_append hu (by omega), hnext]
    simp

/-- In a text, the brace at `p` opens a block that the brace at `c` closes. -/
def Closes (code : Bytes) (p c : Nat) : Prop :=
  ∃ inner rest, code.drop p = opening :: (inner ++ closing :: rest) ∧ Balanced inner ∧
    c = p + inner.length + 1

theorem matchingBrace?_of_lt {code : Bytes} {p : Nat} (hp : p < code.length) :
    matchingBrace? code p = (closeFrom 0 (code.drop p)).map (· + p) := by
  have hrange : ((p : Int) < 0 || (code.length : Int) ≤ p) = false := by
    simp only [Bool.or_eq_false_iff, decide_eq_false_iff_not]
    omega
  simp only [matchingBrace?, hrange, Bool.false_eq_true, if_false, Int.toNat_natCast]

theorem lt_length_of_drop {code s : Bytes} {p : Nat} {b : UInt8} (hp : code.drop p = b :: s) :
    p < code.length := by
  by_contra hle
  rw [List.drop_eq_nil_of_le (by omega)] at hp
  cases hp

theorem matchingBrace?_eq_some_iff {code s : Bytes} {p c : Nat} (hp : code.drop p = opening :: s) :
    matchingBrace? code p = some c ↔ Closes code p c := by
  simp only [matchingBrace?_of_lt (lt_length_of_drop hp), hp, Option.map_eq_some_iff,
    closeFrom_opening_iff, Closes, List.cons.injEq, true_and]
  constructor
  · rintro ⟨k, ⟨u, t, rfl, hu, rfl⟩, rfl⟩
    exact ⟨u, t, rfl, hu, by omega⟩
  · rintro ⟨u, t, rfl, hu, rfl⟩
    exact ⟨u.length + 1, ⟨u, t, rfl, hu, rfl⟩, by omega⟩

namespace Closes

variable {code : Bytes} {p q c d : Nat}

theorem lt (h : Closes code p c) : p < c := by
  obtain ⟨inner, rest, -, -, rfl⟩ := h
  omega

theorem lt_length (h : Closes code p c) : c < code.length := by
  obtain ⟨inner, rest, hdrop, -, rfl⟩ := h
  have hlength := congrArg List.length hdrop
  simp only [List.length_drop, List.length_cons, List.length_append] at hlength
  omega

/-- The text of a block: balanced text in braces. -/
theorem slice_eq (h : Closes code p c) :
    ∃ inner, code.slice p (c + 1) = opening :: (inner ++ [closing]) ∧ Balanced inner := by
  obtain ⟨inner, rest, hdrop, hinner, rfl⟩ := h
  have hwidth : p + inner.length + 1 + 1 - p = (opening :: (inner ++ [closing])).length := by
    simp only [List.length_cons, List.length_append, List.length_nil]
    omega
  have hshape : opening :: (inner ++ closing :: rest) =
      opening :: (inner ++ [closing]) ++ rest := by simp
  refine ⟨inner, ?_, hinner⟩
  rw [Bytes.slice, hdrop, hwidth, hshape, List.take_left]

/-- Inside a block the depth is greater than before it. -/
theorem depth_lt (h : Closes code p c) {i : Nat} (hlow : p < i) (hhigh : i ≤ c) :
    depth (code.take p) < depth (code.take i) := by
  obtain ⟨inner, rest, hdrop, hinner, rfl⟩ := h
  obtain ⟨k, rfl⟩ : ∃ k, i = p + (k + 1) := ⟨i - p - 1, by omega⟩
  have hle : k ≤ inner.length := by omega
  have hnonneg := hinner.depth_prefix_nonneg (List.take_prefix k inner)
  rw [List.take_add, hdrop, List.take_succ_cons, List.take_append_of_le_length hle, depth_append,
    depth_opening]
  omega

/-- Behind a block the depth is what it was. -/
theorem depth_eq (h : Closes code p c) : depth (code.take (c + 1)) = depth (code.take p) := by
  have hle : p ≤ c + 1 := by
    have hlt := h.lt
    omega
  obtain ⟨inner, hslice, hinner⟩ := h.slice_eq
  rw [← code.take_append_slice hle, hslice]
  simp [hinner.depth_eq_zero]

/-- Two blocks do not cross: the first ends before the second begins, or the second lies in it. -/
theorem laminar (h : Closes code p c) (h' : Closes code q d) (hlt : p < q) : c < q ∨ d < c := by
  by_contra hcross
  rw [not_or, Nat.not_lt, Nat.not_lt] at hcross
  obtain ⟨hqc, hcd⟩ := hcross
  have hopen := h.depth_lt hlt hqc
  have hclose := h.depth_eq
  -- the end of the first block would lie in the second, where the depth is greater still
  rcases Nat.lt_or_ge c d with hcd' | hdc
  · have hinside := h'.depth_lt (i := c + 1) (by omega) (by omega)
    omega
  · obtain rfl : c = d := by omega
    have hback := h'.depth_eq
    omega

end Closes

/-- A proper beginning of a block leaves braces open. -/
theorem count_lt_of_prefix {inner p : Bytes} (hinner : Balanced inner)
    (hp : p <+: opening :: (inner ++ [closing])) (hne : p ≠ [])
    (hproper : p ≠ opening :: (inner ++ [closing])) : p.count closing < p.count opening := by
  have hdepth : 0 < depth p := by
    rcases List.prefix_cons_iff.mp hp with rfl | ⟨q, rfl, hq⟩
    · exact absurd rfl hne
    · rcases List.prefix_concat_iff.mp hq with rfl | hq
      · exact absurd rfl hproper
      · have hnonneg := hinner.depth_prefix_nonneg hq
        rw [depth_opening]
        omega
  simp only [depth] at hdepth
  omega

end Block

/-! ## Declarations -/

namespace ClassBlock

/-- A header: the word `class`, space, the name as a whole word, and more. -/
def Names (header name : Bytes) : Prop :=
  ∃ gap more, header = Bytes.ofString "class" ++ (gap ++ (name ++ more)) ∧
    gap ≠ [] ∧ (∀ b ∈ gap, Bytes.isSpace b = true) ∧ more.head?.any Bytes.isWord = false

/-- A declaration that is read is a header and the first brace behind it. -/
theorem declaration_eq_some {prev : Option UInt8} {s rest : Bytes} {value : Option Bytes}
    (h : declaration prev s = some (value, rest)) :
    ∃ header name, s = header ++ Block.opening :: rest ∧ Block.opening ∉ header ∧
      value = some name ∧ name.IsName ∧ Names header name := by
  simp only [declaration, Option.bind_eq_bind, Option.bind_eq_some_iff, Option.guard_eq_some',
    Option.pure_def, Option.some.injEq, Prod.mk.injEq, Prod.exists] at h
  obtain ⟨-, -, t, hlit, t', hsp, name, t'', hword, more, rest, hcut, rfl, rfl⟩ := h
  obtain ⟨gap, rfl, hgap, hspace⟩ := Read.spaces1_split hsp
  obtain ⟨rfl, hname, hstop⟩ := Read.word_eq_some hword
  obtain ⟨rfl, hmore⟩ := Read.cut?_eq_some hcut
  refine ⟨Bytes.ofString "class" ++ (gap ++ (name ++ more)), name, ?_, ?_, rfl, hname,
    gap, more, rfl, hgap, hspace, ?_⟩
  · rw [Read.literal_eq_some hlit]
    simp
  · -- neither the keyword nor space nor a word has a brace in it
    simp only [List.mem_append, not_or]
    refine ⟨by decide, ?_, ?_, hmore⟩
    · intro hmem
      exact absurd (hspace _ hmem) (by decide)
    · intro hmem
      exact absurd (hname.2 _ hmem) (by decide)
  · cases more with
    | nil => rfl
    | cons c more => exact hstop

theorem declaration_consumes : declaration.Consumes := by
  intro prev s value rest h
  obtain ⟨header, name, rfl, -⟩ := declaration_eq_some h
  exact ⟨header ++ [Block.opening], by simp, by simp⟩

/-! ## Spans -/

/-- Where a class block lies: the offsets of its declaration and of its two braces. -/
structure Span where
  name : Bytes
  start : Nat
  opening : Nat
  closing : Nat

namespace Span

/-- The span of a declaration, if the brace that ends it is closed again. -/
def ofOccurrence (code : Bytes) (o : Occurrence (Option Bytes)) : Option Span :=
  (Block.matchingBrace? code ((o.stop - 1 : Nat) : Int)).map fun c =>
    ⟨o.value.getD [], o.start, o.stop - 1, c⟩

/-- The block that a span cuts out of a text. -/
def block (code : Bytes) (s : Span) : ClassBlock :=
  ⟨s.name, code.slice s.start s.opening, code.slice s.opening (s.closing + 1)⟩

/-- A header that names the class, in front of a block in braces that nothing shorter balances. -/
structure Placed (code : Bytes) (s : Span) : Prop where
  start_lt : s.start < s.opening
  opening_lt : s.opening < s.closing
  closing_lt : s.closing < code.length
  name_isName : s.name.IsName
  header_names : Names (code.slice s.start s.opening) s.name
  header_plain : Block.opening ∉ code.slice s.start s.opening
  body_first : (code.slice s.opening (s.closing + 1)).head? = some Block.opening
  body_last : (code.slice s.opening (s.closing + 1)).getLast? = some Block.closing
  body_balanced : Balanced (code.slice s.opening (s.closing + 1))
  body_minimal : ∀ p, p <+: code.slice s.opening (s.closing + 1) → p ≠ [] →
    p ≠ code.slice s.opening (s.closing + 1) →
      ¬ Balanced p ∧ p.count Block.closing < p.count Block.opening

/-- Two spans, the first of which begins first: neither their headers nor their blocks cross. -/
def Apart (s t : Span) : Prop :=
  s.opening < t.start ∧ s.opening < t.opening ∧ (s.closing < t.opening ∨ t.closing < s.closing)

end Span

/-- The spans of the class declarations in a text. -/
def spans (code : Bytes) : List Span :=
  (declaration.occurrences code).filterMap (Span.ofOccurrence code)

/-- A declaration in a text: the header ends at the last byte of the occurrence, a brace. -/
theorem exists_header {code : Bytes} {o : Occurrence (Option Bytes)}
    (ho : o ∈ declaration.occurrences code) :
    ∃ header name, o.here = header ++ Block.opening :: o.rest ∧ Block.opening ∉ header ∧
      o.value = some name ∧ name.IsName ∧ Names header name ∧
      o.stop - 1 = o.start + header.length := by
  have hin := Form.inText_of_mem_occurrences ho
  obtain ⟨header, name, hhere, hplain, hvalue, hname, hnames⟩ := declaration_eq_some hin.read
  refine ⟨header, name, hhere, hplain, hvalue, hname, hnames, ?_⟩
  have hlength := congrArg List.length hhere
  simp only [List.length_append, List.length_cons] at hlength
  simp only [Occurrence.stop]
  omega

theorem drop_brace {code : Bytes} {o : Occurrence (Option Bytes)}
    (ho : o ∈ declaration.occurrences code) :
    code.drop (o.stop - 1) = Block.opening :: o.rest := by
  obtain ⟨header, name, hhere, -, -, -, -, hstop⟩ := exists_header ho
  rw [hstop, ← List.drop_drop, (Form.inText_of_mem_occurrences ho).here_eq, hhere, List.drop_left]

theorem slice_header {code header : Bytes} {o : Occurrence (Option Bytes)}
    (ho : o ∈ declaration.occurrences code) (hhere : o.here = header ++ Block.opening :: o.rest) :
    code.slice o.start (o.start + header.length) = header := by
  rw [Bytes.slice, (Form.inText_of_mem_occurrences ho).here_eq, hhere, Nat.add_sub_cancel_left,
    List.take_left]

/-- The block that is read behind a declaration is the one that its span cuts out. -/
theorem read?_eq_span {code : Bytes} {o : Occurrence (Option Bytes)}
    (ho : o ∈ declaration.occurrences code) :
    read? (o.value.getD []) o.here = (Span.ofOccurrence code o).map (Span.block code) := by
  obtain ⟨header, name, hhere, hplain, -, -, -, hstop⟩ := exists_header ho
  have hdrop := drop_brace ho
  have hheader : code.slice o.start (o.stop - 1) = header := by
    rw [hstop, slice_header ho hhere]
  have hblock : ∀ n, code.slice (o.stop - 1) (n + (o.stop - 1) + 1) =
      (Block.opening :: o.rest).take (n + 1) := by
    intro n
    rw [Bytes.slice, hdrop]
    congr 1
    omega
  rw [hhere, read?_header _ hplain, Span.ofOccurrence,
    Block.matchingBrace?_of_lt (Block.lt_length_of_drop hdrop), hdrop, Option.map_map,
    Option.map_map]
  congr 1
  funext n
  simp only [Function.comp_apply, Span.block, hheader, hblock]

theorem placed_of_mem_spans {code : Bytes} {s : Span} (hs : s ∈ spans code) : s.Placed code := by
  obtain ⟨o, ho, hspan⟩ := List.mem_filterMap.mp hs
  obtain ⟨c, hmatch, rfl⟩ := Option.map_eq_some_iff.mp hspan
  obtain ⟨header, name, hhere, hplain, hvalue, hname, hnames, hstop⟩ := exists_header ho
  have hcloses := (Block.matchingBrace?_eq_some_iff (drop_brace ho)).mp hmatch
  obtain ⟨inner, hbody, hinner⟩ := hcloses.slice_eq
  have hheader : code.slice o.start (o.stop - 1) = header := by
    rw [hstop, slice_header ho hhere]
  have hlt : o.start < o.stop - 1 := by
    obtain ⟨gap, more, rfl, -⟩ := hnames
    have hpos : 0 < (Bytes.ofString "class").length := by decide
    simp only [hstop, List.length_append]
    omega
  refine ⟨hlt, hcloses.lt, hcloses.lt_length, ?name, ?names, ?plain, ?first, ?last, ?balanced,
    ?minimal⟩
  case name => simpa only [hvalue, Option.getD_some] using hname
  case names => simpa only [hvalue, Option.getD_some, hheader] using hnames
  case plain => simpa only [hheader] using hplain
  case first => simp only [hbody, List.head?_cons]
  case last => simp only [hbody, ← List.cons_append, List.getLast?_concat]
  case balanced =>
    simp only [hbody]
    exact .nest hinner .nil
  case minimal =>
    simp only [hbody]
    intro p hp hne hproper
    have hcount := Block.count_lt_of_prefix hinner hp hne hproper
    refine ⟨?_, hcount⟩
    intro hbalanced
    have hzero := hbalanced.depth_eq_zero
    simp only [Block.depth] at hzero
    omega

/-- Declarations do not overlap, so headers do not, and the blocks behind them do not cross. -/
theorem spans_pairwise (code : Bytes) : (spans code).Pairwise Span.Apart := by
  rw [spans, List.pairwise_filterMap]
  refine (declaration.occurrences_pairwise code).imp_of_mem ?_
  intro a b ha hb hle s hs t ht
  obtain ⟨c, hc, rfl⟩ := Option.map_eq_some_iff.mp hs
  obtain ⟨d, hd, rfl⟩ := Option.map_eq_some_iff.mp ht
  rw [Block.matchingBrace?_eq_some_iff (drop_brace ha)] at hc
  rw [Block.matchingBrace?_eq_some_iff (drop_brace hb)] at hd
  -- the first brace is the last byte of its declaration, which ends before the second begins
  have hstart := (Form.inText_of_mem_occurrences ha).start_lt_stop declaration_consumes
  obtain ⟨header, -, -, -, -, -, -, hstop⟩ := exists_header hb
  have hbrace : a.stop - 1 < b.stop - 1 := by omega
  refine ⟨?_, hbrace, hc.laminar hd hbrace⟩
  show a.stop - 1 < b.start
  omega

/-! ## The layout of a text -/

/-- How the class blocks of a text lie in it. -/
structure Layout (code : Bytes) : Prop where
  /-- The blocks are those of the declarations whose brace is closed again, in their order. -/
  blocks_eq : all declaration code = (spans code).map (Span.block code)
  /-- Declarations do not overlap. -/
  declarations_apart :
    (declaration.occurrences code).Pairwise fun a b => a.stop ≤ b.start
  /-- No declaration is without an opening brace. -/
  opening_mem : ∀ o ∈ declaration.occurrences code, Block.opening ∈ o.here
  /-- A declaration has a span exactly if balanced text and a closing brace follow its brace. -/
  span_iff : ∀ o ∈ declaration.occurrences code, ∀ s : Span,
    Span.ofOccurrence code o = some s ↔
      o.value = some s.name ∧ s.start = o.start ∧ s.opening + 1 = o.stop ∧
        Block.Closes code s.opening s.closing
  spans_placed : ∀ s ∈ spans code, s.Placed code
  spans_apart : (spans code).Pairwise Span.Apart

theorem span_eq_some_iff {code : Bytes} {o : Occurrence (Option Bytes)}
    (ho : o ∈ declaration.occurrences code) (s : Span) :
    Span.ofOccurrence code o = some s ↔
      o.value = some s.name ∧ s.start = o.start ∧ s.opening + 1 = o.stop ∧
        Block.Closes code s.opening s.closing := by
  have hpos := (Form.inText_of_mem_occurrences ho).start_lt_stop declaration_consumes
  obtain ⟨header, name, -, -, hvalue, -, -, -⟩ := exists_header ho
  simp only [Span.ofOccurrence, Option.map_eq_some_iff,
    Block.matchingBrace?_eq_some_iff (drop_brace ho), hvalue, Option.getD_some,
    Option.some.injEq]
  constructor
  · rintro ⟨c, hc, rfl⟩
    exact ⟨rfl, rfl, by show o.stop - 1 + 1 = o.stop; omega, hc⟩
  · rintro ⟨hname, hstart, hopen, hc⟩
    have hbrace : o.stop - 1 = s.opening := by omega
    refine ⟨s.closing, ?_, ?_⟩
    · rw [hbrace]
      exact hc
    · rw [hbrace, hname, ← hstart]

/-- **The layout of class blocks**, in every text. -/
theorem layout_of_code (code : Bytes) : Layout code := by
  refine ⟨?blocks, declaration.occurrences_pairwise code, ?brace, fun o ho => span_eq_some_iff ho,
    fun s hs => placed_of_mem_spans hs, spans_pairwise code⟩
  case blocks =>
    rw [all, spans, List.map_filterMap]
    exact List.filterMap_congr fun o ho => read?_eq_span ho
  case brace =>
    intro o ho
    obtain ⟨header, -, hhere, -⟩ := exists_header ho
    rw [hhere]
    simp

-- one class inside another, and one whose brace is not closed
example : (spans (Bytes.ofString "class A \x7b class B \x7b\x7d \x7d class C \x7b")).map
    (fun s => (s.start, s.opening, s.closing)) = [(0, 8, 21), (10, 18, 19)] := by
  decide +kernel

end ClassBlock

end ClassOutline
