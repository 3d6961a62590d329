import ClassOutline.Proofs.BraceCounter
import ClassOutline.Proofs.EdgeInvariant

/-!
# Sources one after another

The search for class declarations looks at a text as a whole. A header runs on to the next opening
brace, wherever that is, and from there the braces are counted up to the one that closes the block.
Where the text is made of two, both could run from the first into the second.

They do not when the first text is self-contained (`ClassBlock.IsSelfContained`): each of its
declarations is closed in it, and behind the last one the word `class` does not stand anywhere. A
place in the first text then falls under one of two laws. While there is an opening brace to come, a
declaration is read there or not, whatever follows the text (`ClassBlock.declaration_more`). Where
there is none, no declaration begins, since the word that begins one would have to be in the text
(`ClassBlock.declaration_silent`). In the second text nothing changes, because a newline is as good
a word boundary as the start.

## Main results

- `Form.sightings_induction`: a search, one occurrence after another
- `ClassBlock.sightings_newline`: what is found in two texts, one behind the other
- `Java.outline_compositional`: outlines of Java source are put together like the sources
-/

namespace ClassOutline

/-! ## A search, occurrence by occurrence -/

/-- A search finds nothing in a text that is silent, or it finds an occurrence behind a silent
stretch and goes on behind that. -/
theorem Form.sightings_induction {α : Type} {form : Form α} (hform : form.Consumes)
    {motive : Option UInt8 → Bytes → Prop}
    (silent : ∀ prev s, form.Silent prev s [] → motive prev s)
    (hit : ∀ prev u v rest value, v ≠ [] → form.Silent prev u (v ++ rest) →
      form (Bytes.lastAfter prev u) (v ++ rest) = some (value, rest) →
      motive (Bytes.lastAfter prev (u ++ v)) rest → motive prev (u ++ (v ++ rest)))
    (prev : Option UInt8) (s : Bytes) : motive prev s := by
  -- what is left behind an occurrence is shorter
  induction hn : s.length using Nat.strong_induction_on generalizing prev s with
  | _ n ih =>
    subst hn
    cases hfirst : form.firstFrom 0 prev s with
    | none => exact silent prev s (silent_of_firstFrom_eq_none hfirst)
    | some o =>
      obtain ⟨u, rfl, -, hsilent, hread⟩ := firstFrom_eq_some hfirst
      obtain ⟨v, hne, hhere⟩ := hform _ _ _ _ hread
      rw [hhere] at hsilent hread ⊢
      refine hit prev u v o.rest o.value hne hsilent hread (ih _ ?_ _ _ rfl)
      have hpos := List.length_pos_iff.mpr hne
      have hlength := congrArg List.length hhere
      simp only [List.length_append] at hlength ⊢
      omega

theorem Form.sightings_eq_nil {α : Type} {form : Form α} {prev : Option UInt8} {s : Bytes}
    (h : form.Silent prev s []) : form.sightings prev s = [] := by
  have hnone := sightings_silent h
  rwa [List.append_nil, sightings_nil] at hnone

theorem Form.sightings_silent_hit {α : Type} {form : Form α} {prev : Option UInt8}
    {u v rest : Bytes} {value : α} (hne : v ≠ []) (hsilent : form.Silent prev u (v ++ rest))
    (hread : form (Bytes.lastAfter prev u) (v ++ rest) = some (value, rest)) :
    form.sightings prev (u ++ (v ++ rest)) =
      (v ++ rest, value, rest) :: form.sightings (Bytes.lastAfter prev (u ++ v)) rest := by
  rw [sightings_silent hsilent, sightings_hit hne hread, Bytes.lastAfter_append]

namespace ClassBlock

open Block (opening)

/-! ## Declarations in front of more text -/

/-- A header that names a class is read up to its brace. -/
theorem declaration_of_names {prev : Option UInt8} (hprev : Read.wordStart prev = true)
    {header name : Bytes} (hnames : Names header name) (hname : name.IsName)
    (hplain : opening ∉ header) (rest : Bytes) :
    declaration prev (header ++ opening :: rest) = some (some name, rest) := by
  obtain ⟨gap, more, rfl, hgap, hspace, hmore⟩ := hnames
  simp only [List.mem_append, not_or] at hplain
  simp only [List.append_assoc]
  have hlit := Read.literal_append "class" (gap ++ (name ++ (more ++ opening :: rest)))
  have hsp := Read.spaces1_append hgap hspace (hname.head_isSpace (more ++ opening :: rest))
  have hword : Read.word (name ++ (more ++ opening :: rest)) =
      some (name, more ++ opening :: rest) := by
    apply Read.word_append hname.1 hname.2
    cases more with
    | nil => rfl
    | cons b more => exact hmore
  have hcut := Read.cut?_append hplain.2.2.2 rest
  simp [declaration, hprev, hlit, hsp, hword, hcut]

/-- Where an opening brace is still to come, what follows the text makes no difference. -/
theorem declaration_more {s : Bytes} (hs : opening ∈ s) (prev : Option UInt8) (t : Bytes) :
    declaration prev (s ++ t) = (declaration prev s).map fun r => (r.1, r.2 ++ t) := by
  cases hread : declaration prev s with
  | some r =>
    obtain ⟨value, rest⟩ := r
    have hprev := (declaration_ledBy _ _ _ hread).1
    obtain ⟨header, name, rfl, hplain, rfl, hname, hnames⟩ := declaration_eq_some hread
    rw [List.append_assoc, List.cons_append]
    exact declaration_of_names hprev hnames hname hplain (rest ++ t)
  | none =>
    cases hmore : declaration prev (s ++ t) with
    | none => rfl
    | some r =>
      obtain ⟨value, rest⟩ := r
      have hprev := (declaration_ledBy _ _ _ hmore).1
      obtain ⟨header, name, hsplit, hplain, -, hname, hnames⟩ := declaration_eq_some hmore
      -- the first brace is in `s`, so the whole header is, and it would have been read there
      rcases List.append_eq_append_iff.mp hsplit with ⟨c, rfl, -⟩ | ⟨c, rfl, hc⟩
      · exact absurd (List.mem_append_left c hs) hplain
      · cases c with
        | nil =>
          rw [List.append_nil] at hs
          exact absurd hs hplain
        | cons b c =>
          obtain ⟨rfl, -⟩ := List.cons.inj hc
          rw [declaration_of_names hprev hnames hname hplain c] at hread
          cases hread

theorem silent_more {prev : Option UInt8} {u s : Bytes} (h : declaration.Silent prev u s)
    (hs : opening ∈ s) (t : Bytes) : declaration.Silent prev u (s ++ t) := by
  induction u generalizing prev with
  | nil => trivial
  | cons b u ih =>
    refine ⟨?_, ih h.2⟩
    have hin : opening ∈ b :: (u ++ s) := List.mem_cons_of_mem b (List.mem_append_right u hs)
    have hmore := declaration_more hin prev t
    rw [h.1, List.cons_append, List.append_assoc] at hmore
    exact hmore

/-- No declaration begins in a text without the word, even as a part of another word, nor at the
newline behind it. -/
theorem declaration_silent {a : Bytes} (hfree : ¬ Bytes.ofString "class" <:+: a)
    (prev : Option UInt8) (b : Bytes) : declaration.Silent prev (a ++ [10]) b := by
  -- what begins at a place of `a` in front of the newline lies in `a`
  have hnone : ∀ (prev : Option UInt8) (s : Bytes), ¬ Bytes.ofString "class" <+: s →
      declaration prev (s ++ 10 :: b) = none := by
    intro prev s hs
    cases hread : declaration prev (s ++ 10 :: b) with
    | none => rfl
    | some r =>
      obtain ⟨header, name, hsplit, -, -, -, gap, more, rfl, -⟩ := declaration_eq_some hread
      have hword : Bytes.ofString "class" <+: s ++ 10 :: b := by
        rw [hsplit, List.append_assoc]
        exact List.prefix_append _ _
      exact absurd (Bytes.prefix_of_prefix_append (by decide) hword) hs
  induction a generalizing prev with
  | nil => exact ⟨hnone prev [] (by decide), trivial⟩
  | cons c a ih =>
    refine ⟨?_, ih (fun h => hfree (h.trans (List.suffix_cons c a).isInfix)) (some c)⟩
    have hhere := hnone prev (c :: a) fun h => hfree h.isInfix
    simpa using hhere

/-! ## Two texts, one behind the other -/

/-- What is left behind the last declaration of the rest of a text: all of it when there is none. -/
def tailFrom (prev : Option UInt8) (s : Bytes) : Bytes :=
  ((declaration.sightings prev s).getLast?.map fun o => o.2.2).getD s

/-- What is left of a text behind its last class declaration: all of it when there is none. -/
def behindLast (code : Bytes) : Bytes :=
  ((declaration.occurrences code).getLast?.map Occurrence.rest).getD code

theorem tailFrom_none (code : Bytes) : tailFrom none code = behindLast code := by
  simp [tailFrom, behindLast, Form.sightings, Form.occurrences, Function.comp_def]

/-- What was found in a text, seen with more text behind it. -/
def withMore (t : Bytes) (o : Bytes × Option Bytes × Bytes) : Bytes × Option Bytes × Bytes :=
  (o.1 ++ t, o.2.1, o.2.2 ++ t)

/-- **What is found in two texts**, one behind the other on lines of their own: what is found in the
first, and what is found in the second. -/
theorem sightings_newline (prev : Option UInt8) (a b : Bytes) :
    ¬ Bytes.ofString "class" <:+: tailFrom prev a →
    declaration.sightings prev (a ++ 10 :: b) =
      (declaration.sightings prev a).map (withMore (10 :: b)) ++
        declaration.sightings (some 10) b := by
  induction prev, a using Form.sightings_induction declaration_consumes with
  | silent prev a hsilent =>
    intro hfree
    have hnil := Form.sightings_eq_nil hsilent
    have htail : tailFrom prev a = a := by rw [tailFrom, hnil]; rfl
    rw [htail] at hfree
    have hskip := Form.sightings_silent (declaration_silent hfree prev b)
    rw [List.append_assoc, Bytes.lastAfter_append] at hskip
    rw [hnil]
    exact hskip
  | hit prev u v rest value hne hsilent hread ih =>
    intro hfree
    have hfound := Form.sightings_silent_hit hne hsilent hread
    -- the brace at the end of the declaration stands behind every place before it
    have hbrace : opening ∈ v ++ rest := by
      obtain ⟨header, -, hsplit, -⟩ := declaration_eq_some hread
      rw [hsplit]
      simp
    have hread' := declaration_more hbrace (Bytes.lastAfter prev u) (10 :: b)
    rw [hread, List.append_assoc] at hread'
    have hsilent' := silent_more hsilent hbrace (10 :: b)
    rw [List.append_assoc] at hsilent'
    have hfound' := Form.sightings_silent_hit hne hsilent' hread'
    -- what is left behind the last declaration is left behind this one too
    have htail : tailFrom prev (u ++ (v ++ rest)) =
        tailFrom (Bytes.lastAfter prev (u ++ v)) rest := by
      rw [tailFrom, tailFrom, hfound, List.getLast?_cons]
      cases (declaration.sightings (Bytes.lastAfter prev (u ++ v)) rest).getLast? with
      | none => rfl
      | some o => rfl
    rw [htail] at hfree
    rw [List.append_assoc, List.append_assoc, hfound', ih hfree, hfound, List.map_cons,
      List.cons_append]
    simp [withMore]

/-! ## Blocks -/

/-- Where the counter stopped, it stops with more text behind as well. -/
theorem closeFrom_more {d : Int} {s : Bytes} {k : Nat} (h : Block.closeFrom d s = some k)
    (t : Bytes) : Block.closeFrom d (s ++ t) = some k := by
  induction s generalizing d k with
  | nil => cases h
  | cons b s ih =>
    rw [Block.closeFrom_cons] at h
    rw [List.cons_append, Block.closeFrom_cons]
    split at h
    · next hfirst => rw [if_pos hfirst, h]
    · next hfirst =>
      obtain ⟨m, hm, rfl⟩ := Option.map_eq_some_iff.mp h
      rw [if_neg hfirst, ih hm]
      rfl

/-- A block that is closed is the same with more text behind it. -/
theorem read?_more {name header s : Bytes} (hplain : opening ∉ header) {block : ClassBlock}
    (h : read? name (header ++ opening :: s) = some block) (t : Bytes) :
    read? name (header ++ opening :: s ++ t) = some block := by
  rw [read?_header name hplain] at h
  obtain ⟨n, hclose, rfl⟩ := Option.map_eq_some_iff.mp h
  -- the closing brace is one of the first text, so no byte of the block is behind it
  have hn : n < (opening :: s).length :=
    (List.getElem?_eq_some_iff.mp (Block.closeFrom_eq_some_iff.mp hclose).1.1).1
  have hmore := closeFrom_more hclose t
  rw [List.cons_append] at hmore
  rw [List.append_assoc, List.cons_append, read?_header name hplain, hmore, Option.map_some,
    ← List.cons_append, List.take_append_of_le_length (Nat.succ_le_of_lt hn)]

/-- A text that has no part of a class declaration left for what follows it. -/
structure IsSelfContained (code : Bytes) : Prop where
  /-- Behind every declaration there is a block. -/
  closed : ∀ o ∈ declaration.occurrences code, (read? (o.value.getD []) o.here).isSome = true
  /-- Behind the last declaration the word that begins one is not part of the text. -/
  ended : ¬ Bytes.ofString "class" <:+: behindLast code

/-- The blocks of two texts are those of the first and those of the second. -/
theorem IsSelfContained.all_newline {a : Bytes} (ha : IsSelfContained a) (b : Bytes) :
    all declaration (a ++ 10 :: b) = all declaration a ++ all declaration b := by
  have hfree : ¬ Bytes.ofString "class" <:+: tailFrom none a := by
    rw [tailFrom_none]
    exact ha.ended
  -- behind the newline a word may begin, as at the start of a text
  have hsame : ∀ s, declaration (some 10) s = declaration none s := fun _ => rfl
  have hsecond : declaration.sightings (some 10) b = declaration.sightings none b :=
    Form.sightings_congr hsame b
  have hfirst : ∀ o ∈ declaration.sightings none a,
      read? (o.2.1.getD []) (o.1 ++ 10 :: b) = read? (o.2.1.getD []) o.1 := by
    intro o ho
    obtain ⟨occ, hocc, rfl⟩ := List.mem_map.mp ho
    obtain ⟨block, hblock⟩ := Option.isSome_iff_exists.mp (ha.closed occ hocc)
    obtain ⟨header, -, hhere, hplain, -⟩ := exists_header hocc
    show read? (occ.value.getD []) (occ.here ++ 10 :: b) = read? (occ.value.getD []) occ.here
    rw [hhere] at hblock ⊢
    rw [hblock]
    exact read?_more hplain hblock (10 :: b)
  simp only [all_eq_blocksFrom, blocksFrom]
  rw [sightings_newline none a b hfree, hsecond, List.filterMap_append, List.filterMap_map]
  congr 1
  exact List.filterMap_congr hfirst

end ClassBlock

/-! ## Outlines of Java source -/

namespace Java

open ClassBlock (IsSelfContained)

theorem outline_newline {a : Bytes} (ha : IsSelfContained a) (b : Bytes) :
    outline (a ++ 10 :: b) = outline a ++ outline b := by
  simp only [outline, ha.all_newline b, Outline.ofParts_eq, List.map_append, List.flatMap_append]
  rfl

/-- Of self-contained texts, each on lines of its own, the outline has the classes and edges of
all. -/
theorem outline_join {files : List Bytes} (hfiles : ∀ f ∈ files, IsSelfContained f) :
    (outline (Bytes.join [10] files)).classes = files.flatMap (fun f => (outline f).classes) ∧
      (outline (Bytes.join [10] files)).edges = files.flatMap fun f => (outline f).edges := by
  induction files with
  | nil => exact ⟨rfl, rfl⟩
  | cons a files ih =>
    obtain ⟨hclasses, hedges⟩ := ih fun f hf => hfiles f (List.mem_cons_of_mem _ hf)
    cases files with
    | nil => simp [Bytes.join]
    | cons b files =>
      have hjoin : Bytes.join [10] (a :: b :: files) = a ++ 10 :: Bytes.join [10] (b :: files) := by
        simp [Bytes.join]
      rw [hjoin, outline_newline (hfiles a List.mem_cons_self)]
      constructor
      · show (outline a).classes ++ (outline (Bytes.join [10] (b :: files))).classes = _
        rw [hclasses, List.flatMap_cons (x := a)]
      · show (outline a).edges ++ (outline (Bytes.join [10] (b :: files))).edges = _
        rw [hedges, List.flatMap_cons (x := a)]

/-- **Outlines of Java source are put together like the sources.** Behind a self-contained text, on a
new line, any other text has the outline it has alone, and so has the first one. So of self-contained
texts on lines of their own no class is lost, added or changed. -/
theorem outline_compositional :
    (∀ a b, IsSelfContained a →
      outline (a ++ 10 :: b) = (outline a).merge (some (outline b)) ∧
      (outline (a ++ 10 :: b)).classes = (outline a).classes ++ (outline b).classes ∧
      (outline (a ++ 10 :: b)).edges = (outline a).edges ++ (outline b).edges) ∧
    (∀ files, (∀ f ∈ files, IsSelfContained f) →
      (outline (Bytes.join [10] files)).classes = files.flatMap (fun f => (outline f).classes) ∧
      (outline (Bytes.join [10] files)).edges = files.flatMap fun f => (outline f).edges) := by
  refine ⟨?two, fun files => outline_join⟩
  intro a b ha
  rw [outline_newline ha b]
  exact ⟨rfl, rfl, rfl⟩

/-- One class in another, the word in a comment in front of them, and a class in the text behind. -/
theorem outline_compositional_nested :
    let a := Bytes.ofString "// subclass\nclass A \x7b class B \x7b\x7d \x7d // end"
    let b := Bytes.ofString "class C extends A \x7b\x7d"
    outline (a ++ 10 :: b) = (outline a).merge (some (outline b)) ∧
    (outline (Bytes.join [10] [a, b])).classes = (outline a).classes ++ (outline b).classes ∧
    (outline a).classes.map ClassInfo.name = [Bytes.ofString "A", Bytes.ofString "B"] := by
  intro a b
  have ha : IsSelfContained a := ⟨by decide +kernel, by decide +kernel⟩
  have hb : IsSelfContained b := ⟨by decide +kernel, by decide +kernel⟩
  refine ⟨(outline_compositional.1 a b ha).1, ?_, by decide +kernel⟩
  have hboth := (outline_compositional.2 [a, b] (by simp [ha, hb])).1
  simpa using hboth

end Java

end ClassOutline
