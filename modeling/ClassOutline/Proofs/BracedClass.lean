import ClassOutline.Extract.Java
import ClassOutline.Proofs.Text.Words

/-!
# Class declarations with braces

Where a class declaration is `class`, a name, some clauses and a block whose braces are balanced,
the block that the library finds is that block (`ClassBlock.read?_append`), and the search for
declarations goes on behind it as long as the block declares no class itself (`blocksFrom_class`).

The module also holds what the languages with braces share inside such a declaration: the clause
that names the parent, the keywords for visibility, members (`Member`) and classes made of them
(`BracedClass`).

## Main results

- `Read.parent_header`: the parent that is read off a header is the one that its clause names
- `BracedClass.blocksFrom_flatMap`: classes one after another are found one after another
- `Form.values_body`: what is read in the block of a class is what is read in its members
-/

namespace ClassOutline

/-! ## Balanced braces -/

def Block.isBrace (b : UInt8) : Bool := b == opening || b == closing

/-- Text in which every opening brace is closed and every closing brace was opened. -/
inductive Balanced : Bytes → Prop where
  | nil : Balanced []
  | plain {b : UInt8} {u : Bytes} (hb : Block.isBrace b = false) (hu : Balanced u) :
      Balanced (b :: u)
  | nest {u v : Bytes} (hu : Balanced u) (hv : Balanced v) :
      Balanced (Block.opening :: (u ++ Block.closing :: v))

namespace Balanced

theorem of_all {u : Bytes} (h : u.all (fun b => !Block.isBrace b) = true) : Balanced u := by
  induction u with
  | nil => exact .nil
  | cons b u ih =>
    simp only [List.all_cons, Bool.and_eq_true, Bool.not_eq_true'] at h
    exact .plain h.1 (ih h.2)

theorem of_not_mem {u : Bytes} (hopen : Block.opening ∉ u) (hclose : Block.closing ∉ u) :
    Balanced u := by
  apply of_all
  rw [List.all_eq_true]
  intro b hb
  have ho : b ≠ Block.opening := fun h => hopen (h ▸ hb)
  have hc : b ≠ Block.closing := fun h => hclose (h ▸ hb)
  simp [Block.isBrace, ho, hc]

theorem of_name {reserved : List Bytes} (n : Name reserved) : Balanced n.text :=
  of_not_mem (n.not_mem_text rfl) (n.not_mem_text rfl)

theorem append {u v : Bytes} (hu : Balanced u) (hv : Balanced v) : Balanced (u ++ v) := by
  induction hu with
  | nil => exact hv
  | plain hb _ ih => exact .plain hb ih
  | nest hu _ _ ih => simpa using Balanced.nest hu ih

theorem flatMap {α : Type} {f : α → Bytes} {l : List α} (h : ∀ a ∈ l, Balanced (f a)) :
    Balanced (l.flatMap f) := by
  induction l with
  | nil => exact .nil
  | cons a l ih =>
    rw [List.flatMap_cons]
    exact (h a List.mem_cons_self).append (ih fun b hb => h b (List.mem_cons_of_mem _ hb))

end Balanced

/-- Inside a block, balanced text is passed over as a whole. -/
theorem Block.closeFrom_append {u : Bytes} (hu : Balanced u) {depth : Int} (hd : 0 < depth)
    (s : Bytes) : closeFrom depth (u ++ s) = (closeFrom depth s).map (· + u.length) := by
  -- the depth changes inside a nested block, so it is generalised over
  induction hu generalizing depth s with
  | nil => simp
  | @plain b u hb _ ih =>
    simp only [isBrace, Bool.or_eq_false_iff] at hb
    obtain ⟨ho, hc⟩ := hb
    rw [List.cons_append, closeFrom, ho, hc, ih hd]
    simp [Function.comp_def, Nat.add_assoc]
  | @nest u v _ _ ihu ihv =>
    have hclose : (Block.closing == Block.opening) = false := rfl
    have hdeep : (depth + 1 == 1) = false := by
      rw [beq_eq_false_iff_ne]
      omega
    -- one level deeper up to the inner closing brace, which therefore closes nothing else
    rw [List.cons_append, List.append_assoc, List.cons_append, closeFrom, ihu (by omega),
      closeFrom, hclose, hdeep, Int.add_sub_cancel, ihv hd]
    simp [Function.comp_def, Nat.add_assoc, Nat.add_comm, Nat.add_left_comm]

/-- The block behind a header begins at the first brace. -/
theorem ClassBlock.read?_header (name : Bytes) {header : Bytes} (hheader : Block.opening ∉ header)
    (s : Bytes) :
    read? name (header ++ Block.opening :: s) =
      (Block.closeFrom 0 (Block.opening :: s)).map fun n =>
        ⟨name, header, (Block.opening :: s).take (n + 1)⟩ := by
  have hall := Read.bne_of_not_mem hheader
  have hstop : (Block.opening :: s).head?.any (· != Block.opening) = false := by simp
  simp only [read?]
  rw [Read.dropWhile_append_stop hall hstop, Read.takeWhile_append_stop hall hstop]

theorem ClassBlock.read?_append (name : Bytes) {header inner : Bytes}
    (hheader : Block.opening ∉ header) (hinner : Balanced inner) (s : Bytes) :
    read? name (header ++ Block.opening :: (inner ++ Block.closing :: s)) =
      some ⟨name, header, Block.opening :: (inner ++ [Block.closing])⟩ := by
  have hclose : Block.closeFrom 0 (Block.opening :: (inner ++ Block.closing :: s)) =
      some (inner.length + 1) := by
    have hnext : Block.closeFrom 1 (Block.closing :: s) = some 0 := rfl
    rw [Block.closeFrom, Int.zero_add, Block.closeFrom_append hinner (by omega), hnext]
    simp
  have htake : (Block.opening :: (inner ++ Block.closing :: s)).take (inner.length + 1 + 1) =
      Block.opening :: (inner ++ [Block.closing]) := by
    rw [List.take_succ_cons, List.take_append, List.take_of_length_le (by omega)]
    simp
  rw [read?_header name hheader, hclose, Option.map_some, htake]

/-! ## Declarations one after another -/

namespace ClassBlock

/-- A declaration is read only where the word `class` begins. -/
theorem declaration_ledBy : declaration.LedBy [Bytes.ofString "class"] := by
  apply Form.LedBy.of_keyword rfl (by decide)
  intro prev s r h
  simp only [declaration, Option.bind_eq_bind, Option.bind_eq_some_iff, Option.guard_eq_some'] at h
  obtain ⟨-, hprev, t, hlit, t', hsp, -⟩ := h
  exact ⟨hprev, t, t', hlit, hsp⟩

theorem declaration_append {reserved : List Bytes} {prev : Option UInt8}
    (hprev : Read.wordStart prev = true) (n : Name reserved) {clauses : Bytes}
    (hword : clauses.head?.any Bytes.isWord = false) (hopen : Block.opening ∉ clauses)
    (s : Bytes) :
    declaration prev (Bytes.ofString "class " ++ (n.text ++ (clauses ++ Block.opening :: s))) =
      some (some n.text, s) := by
  have hlit : Read.literal "class"
      (Bytes.ofString "class " ++ (n.text ++ (clauses ++ Block.opening :: s))) =
      some (0x20 :: (n.text ++ (clauses ++ Block.opening :: s))) := rfl
  have hsp : Read.spaces1 (0x20 :: (n.text ++ (clauses ++ Block.opening :: s))) =
      some (n.text ++ (clauses ++ Block.opening :: s)) := Read.spaces1_blank (n.head_isSpace _)
  have hname : Read.word (n.text ++ (clauses ++ Block.opening :: s)) =
      some (n.text, clauses ++ Block.opening :: s) := by
    refine n.word_text ?_
    cases clauses with
    | nil => rfl
    | cons b clauses => exact hword
  simp [declaration, hprev, hlit, hsp, hname, Read.cut?_append hopen]

/-- The blocks of the class declarations in the rest of a text. -/
def blocksFrom (prev : Option UInt8) (s : Bytes) : List ClassBlock :=
  (declaration.sightings prev s).filterMap fun o => read? (o.2.1.getD []) o.1

theorem all_eq_blocksFrom (code : Bytes) : all declaration code = blocksFrom none code := by
  simp [all, blocksFrom, Form.sightings, Form.occurrences, List.filterMap_map]

theorem blocksFrom_nil (prev : Option UInt8) : blocksFrom prev [] = [] := by
  rw [blocksFrom, Form.sightings_nil, List.filterMap_nil]

/-- A text with nothing but other words in it declares no class. -/
theorem blocksFrom_silent {prev : Option UInt8} {u : Bytes}
    (hlast : Read.wordStart (Bytes.lastAfter prev u) = true)
    (hfree : Bytes.ofString "class" ∉ Bytes.wordsFrom prev u) (s : Bytes) :
    blocksFrom prev (u ++ s) = blocksFrom (Bytes.lastAfter prev u) s := by
  have hsilent : declaration.Silent prev u s := by
    refine declaration_ledBy.silent hlast ?_ s
    intro w hw hmem
    rw [List.mem_singleton.mp hmem] at hw
    exact hfree hw
  rw [blocksFrom, Form.sightings_silent hsilent, blocksFrom]

/-- A class declaration gives its block, and the search goes on behind its last line. -/
theorem blocksFrom_class {reserved : List Bytes} {prev : Option UInt8}
    (hprev : Read.wordStart prev = true) (n : Name reserved) {clauses inner : Bytes}
    (hword : clauses.head?.any Bytes.isWord = false) (hopen : Block.opening ∉ clauses)
    (hinner : Balanced inner) (hfree : Bytes.ofString "class" ∉ Bytes.words inner) (s : Bytes) :
    blocksFrom prev (Bytes.ofString "class " ++ (n.text ++ (clauses ++
        Block.opening :: (inner ++ Block.closing :: 10 :: s)))) =
      ⟨n.text, Bytes.ofString "class " ++ (n.text ++ clauses),
        Block.opening :: (inner ++ [Block.closing])⟩ :: blocksFrom (some 10) s := by
  have hhead := declaration_append hprev n hword hopen (inner ++ Block.closing :: 10 :: s)
  have hheader : Block.opening ∉ Bytes.ofString "class " ++ (n.text ++ clauses) := by
    simp only [List.mem_append, not_or]
    exact ⟨by decide, n.not_mem_text rfl, hopen⟩
  -- the head of the declaration is one occurrence, and no other lies before the end of the block
  have hhit : declaration.sightings prev (Bytes.ofString "class " ++ (n.text ++ (clauses ++
      [Block.opening])) ++ (inner ++ Block.closing :: 10 :: s)) = _ :: _ :=
    Form.sightings_hit (List.append_ne_nil_of_left_ne_nil (by decide) _) (by simpa using hhead)
  have hrest : blocksFrom (some Block.opening) (inner ++ Block.closing :: 10 :: s) =
      blocksFrom (some 10) s := by
    have hclass : Bytes.ofString "class" ∉
        Bytes.wordsFrom (some Block.opening) (inner ++ Block.closing :: [10]) := by
      rw [Bytes.wordsFrom_append_sep rfl, Bytes.wordsFrom_eq_words rfl, Bytes.words_sep rfl,
        Bytes.words_nil, List.append_nil]
      exact hfree
    have hskip := blocksFrom_silent (by simp [Read.wordStart]; rfl) hclass s
    simpa using hskip
  have hblock := read?_append n.text hheader hinner (10 :: s)
  simp only [List.append_assoc, List.cons_append, List.nil_append, Bytes.lastAfter_append,
    Bytes.lastAfter_cons, Bytes.lastAfter_nil] at hhit hblock
  rw [blocksFrom, hhit, List.filterMap_cons]
  simp only [Option.getD_some, hblock]
  rw [← hrest, blocksFrom]

end ClassBlock

/-! ## The clause that names the parent -/

/-- The clause that names the parent class, where there is one. -/
def extendsClause {reserved : List Bytes} : Option (Name reserved) → Bytes
  | none => []
  | some p => Bytes.ofString " extends " ++ p.text

theorem not_mem_extendsClause {reserved : List Bytes} (superclass : Option (Name reserved))
    {b : UInt8} (hword : Bytes.isWord b = false) (hkey : b ∉ Bytes.ofString " extends ") :
    b ∉ extendsClause superclass := by
  cases superclass with
  | none => exact List.not_mem_nil
  | some p =>
    rw [extendsClause, List.mem_append, not_or]
    exact ⟨hkey, p.not_mem_text hword⟩

theorem extendsClause_some {reserved : List Bytes} (p : Name reserved) (s : Bytes) :
    extendsClause (some p) ++ s = 0x20 :: (Bytes.ofString "extends " ++ (p.text ++ s)) := by
  rw [extendsClause, List.append_assoc]
  rfl

/-- The words of a header: two for the name, and two for the parent. -/
theorem words_header {reserved : List Bytes} (n : Name reserved)
    (superclass : Option (Name reserved)) (s : Bytes) :
    Bytes.words (Bytes.ofString "class " ++ (n.text ++ (extendsClause superclass ++ 0x20 :: s))) =
      [Bytes.ofString "class", n.text] ++
        (superclass.toList.flatMap fun p => [Bytes.ofString "extends", p.text]) ++
          Bytes.words s := by
  have hclass : Bytes.words (Bytes.ofString "class ") = [Bytes.ofString "class"] := by decide
  have hextends : Bytes.words (Bytes.ofString "extends ") = [Bytes.ofString "extends"] := by decide
  rw [Bytes.words_append rfl, hclass]
  cases superclass with
  | none =>
    rw [extendsClause, List.nil_append, Bytes.words_append_sep rfl, n.words_text]
    rfl
  | some p =>
    rw [extendsClause_some, Bytes.words_append_sep rfl, Bytes.words_append rfl,
      Bytes.words_append_sep rfl, n.words_text, p.words_text, hextends]
    rfl

namespace Read

theorem parent_ledBy : parent.LedBy [Bytes.ofString "extends"] := by
  apply Form.LedBy.of_keyword rfl (by decide)
  intro prev s r h
  simp only [parent, Option.bind_eq_bind, Option.bind_eq_some_iff, Option.guard_eq_some'] at h
  obtain ⟨-, hprev, t, hlit, t', hsp, -⟩ := h
  exact ⟨hprev, t, t', hlit, hsp⟩

theorem parent_append {reserved : List Bytes} {prev : Option UInt8}
    (hprev : wordStart prev = true) (p : Name reserved) {s : Bytes}
    (hs : s.head?.any Bytes.isWord = false) :
    parent prev (Bytes.ofString "extends " ++ (p.text ++ s)) = some (p.text, s) := by
  have hlit : literal "extends" (Bytes.ofString "extends " ++ (p.text ++ s)) =
      some (0x20 :: (p.text ++ s)) := rfl
  have hsp : spaces1 (0x20 :: (p.text ++ s)) = some (p.text ++ s) :=
    spaces1_blank (p.head_isSpace s)
  simp [parent, hprev, hlit, hsp, p.word_text hs]

/-- The parent that is read off a header is the one that its clause names, if it has that clause.
`more` stands for the clauses behind it. -/
theorem parent_header {reserved : List Bytes} (hreserved : Bytes.ofString "extends" ∈ reserved)
    (n : Name reserved) (superclass : Option (Name reserved)) {more : Bytes}
    (hlast : wordStart (Bytes.lastAfter (some 0x20) more) = true)
    (hfree : Bytes.ofString "extends" ∉ Bytes.words more) :
    (parent.first? (Bytes.ofString "class " ++ (n.text ++ (extendsClause superclass ++
      0x20 :: more)))).map Occurrence.value = superclass.map Name.text := by
  -- without a clause of its own the header is silent, and so is what stands in front of one
  have hsilent : ∀ m s, wordStart (Bytes.lastAfter (some 0x20) m) = true →
      Bytes.ofString "extends" ∉ Bytes.words m →
      parent.Silent none (Bytes.ofString "class " ++ (n.text ++ 0x20 :: m)) s := by
    intro m s hlast hfree
    have hname : Bytes.ofString "extends" ≠ n.text := by
      intro h
      exact n.notReserved (h ▸ hreserved)
    have hclass : Bytes.ofString "extends" ≠ Bytes.ofString "class" := by decide
    have hwords := words_header n none m
    rw [extendsClause, List.nil_append] at hwords
    refine parent_ledBy.silent (by simpa using hlast) ?_ _
    intro w hw hmem
    rw [← Bytes.words, hwords] at hw
    rw [List.mem_singleton.mp hmem] at hw
    simp [hname, hclass, hfree] at hw
  cases superclass with
  | none =>
    have hnone := Form.first?_eq_none (hsilent more [] hlast hfree)
    rw [extendsClause, List.nil_append, hnone]
    rfl
  | some p =>
    have hshape : Bytes.ofString "class " ++ (n.text ++ (extendsClause (some p) ++ 0x20 :: more)) =
        (Bytes.ofString "class " ++ (n.text ++ [0x20])) ++
          (Bytes.ofString "extends " ++ (p.text ++ 0x20 :: more)) := by
      simp [extendsClause_some]
    have hread : parent (some 0x20) _ = some (p.text, 0x20 :: more) := parent_append rfl p rfl
    have hne : Bytes.ofString "extends " ≠ [] := by decide
    have hfirst := Form.first?_eq_some (List.append_ne_nil_of_left_ne_nil hne _)
      (hsilent [] _ rfl List.not_mem_nil) (by simpa using hread)
    rw [hshape, hfirst]
    rfl

end Read

/-! ## Visibility -/

@[simp] theorem Bytes.lastAfter_indent (prev : Option UInt8) :
    lastAfter prev (ofString "    ") = some 0x20 := rfl

/-- The keywords for visibility. -/
inductive Visibility where
  | pub
  | priv
  | prot
deriving DecidableEq, Repr

namespace Visibility

def text : Visibility → Bytes
  | pub => Bytes.ofString "public"
  | priv => Bytes.ofString "private"
  | prot => Bytes.ofString "protected"

def keywords : List Bytes :=
  [Bytes.ofString "public", Bytes.ofString "private", Bytes.ofString "protected"]

theorem isWord_text (v : Visibility) : ∀ b ∈ v.text, Bytes.isWord b = true := by
  apply List.all_eq_true.mp
  cases v <;> rfl

theorem newline_not_mem_text (v : Visibility) : (10 : UInt8) ∉ v.text := by
  cases v <;> decide

theorem text_mem (v : Visibility) : v.text ∈ keywords := by
  cases v <;> decide

theorem text_ne_nil (v : Visibility) : v.text ≠ [] := by
  cases v <;> decide

end Visibility

namespace Read

theorem wordBoundary_visibility {prev : Option UInt8} (hprev : wordStart prev = true)
    (v : Visibility) (s : Bytes) : wordBoundary prev (v.text ++ s) = true := by
  have hhead : (v.text ++ s).head?.any Bytes.isWord = true := by cases v <;> rfl
  simp only [wordStart, Bool.not_eq_true'] at hprev
  rw [wordBoundary, hprev, hhead]
  rfl

/-- A keyword is read in front of every continuation: none of them begins another one. -/
theorem visibility_append (v : Visibility) (s : Bytes) :
    visibility (v.text ++ s) = some (v.text, s) := by
  cases v <;> rfl

theorem visibility_eq_some {s w t : Bytes} (h : visibility s = some (w, t)) :
    ∃ v : Visibility, w = v.text ∧ s = v.text ++ t := by
  simp only [visibility, List.findSome?_eq_some_iff, Option.map_eq_some_iff] at h
  obtain ⟨_, k, _, hks, ⟨u, hlit, hpair⟩, -⟩ := h
  obtain ⟨rfl, rfl⟩ := Prod.mk.inj hpair
  have hk : k ∈ ["public", "private", "protected"] := by
    rw [hks]
    simp
  rw [literal_eq_some hlit]
  simp only [List.mem_cons, List.not_mem_nil, or_false] at hk
  rcases hk with rfl | rfl | rfl
  · exact ⟨.pub, rfl, rfl⟩
  · exact ⟨.priv, rfl, rfl⟩
  · exact ⟨.prot, rfl, rfl⟩

theorem takeWhile_visibility {s w t t' : Bytes} (h : visibility s = some (w, t))
    (hsp : spaces1 t = some t') :
    s.takeWhile Bytes.isWord ∈ Visibility.keywords ∧ s.takeWhile Bytes.isWord ≠ [] := by
  obtain ⟨v, -, rfl⟩ := visibility_eq_some h
  rw [takeWhile_keyword v.isWord_text hsp]
  exact ⟨v.text_mem, v.text_ne_nil⟩

end Read

/-! ## Classes with members -/

/-- A member of a class: its visibility and the rest of its lines, in which braces are closed again
and no class is declared. -/
structure Member where
  visibility : Visibility
  tail : Bytes
  balanced : Balanced tail
  endsLine : Bytes.lastAfter (some 0x20) tail = some 10
  declaresNone : Bytes.ofString "class" ∉ Bytes.words tail

namespace Member

/-- The lines of a member, the first of them indented by four blanks. -/
def source (m : Member) : Bytes :=
  Bytes.ofString "    " ++ (m.visibility.text ++ 0x20 :: m.tail)

theorem lastAfter_source (prev : Option UInt8) (m : Member) :
    Bytes.lastAfter prev m.source = some 10 := by
  simp [source, m.endsLine]

theorem balanced_source (m : Member) : Balanced m.source := by
  have hindent : Balanced (Bytes.ofString "    ") := .of_all rfl
  have hvis : Balanced m.visibility.text := by
    apply Balanced.of_all
    cases m.visibility <;> rfl
  exact hindent.append (hvis.append (.plain rfl m.balanced))

theorem words_source (m : Member) :
    Bytes.words m.source = m.visibility.text :: Bytes.words m.tail := by
  have hindent : Bytes.words (Bytes.ofString "    ") = [] := by decide
  rw [source, Bytes.words_append rfl, hindent, Bytes.words_append_sep rfl,
    Bytes.words_of_word m.visibility.text_ne_nil m.visibility.isWord_text]
  rfl

theorem class_not_mem_words (m : Member) : Bytes.ofString "class" ∉ Bytes.words m.source := by
  have hvis : ∀ v : Visibility, Bytes.ofString "class" ≠ v.text := by
    intro v
    cases v <;> decide
  rw [words_source, List.mem_cons, not_or]
  exact ⟨hvis _, m.declaresNone⟩

end Member

/-- A class as it is usually written: a header of one line, then its members, then a line with the
closing brace. -/
structure BracedClass (reserved : List Bytes) where
  name : Name reserved
  parent : Option (Name reserved)
  /-- What stands between the parent and the brace, behind a blank. -/
  more : Bytes
  members : List Member
  more_plain : Block.opening ∉ more

theorem Bytes.ofString_openBrace : ofString " \x7b\n" = [0x20, Block.opening, 10] := rfl

theorem Bytes.ofString_closeBrace : ofString "\x7d\n" = [Block.closing, 10] := rfl

namespace BracedClass

variable {reserved : List Bytes} (c : BracedClass reserved)

def clauses : Bytes := extendsClause c.parent ++ 0x20 :: c.more

/-- The text between the braces. -/
def inner : Bytes := 10 :: c.members.flatMap Member.source

/-- The lines of the class. -/
def source : Bytes :=
  Bytes.ofString "class " ++ (c.name.text ++ (c.clauses ++
    Block.opening :: (c.inner ++ [Block.closing, 10])))

def block : ClassBlock :=
  ⟨c.name.text, Bytes.ofString "class " ++ (c.name.text ++ c.clauses),
    Block.opening :: (c.inner ++ [Block.closing])⟩

theorem lastAfter_source (prev : Option UInt8) : Bytes.lastAfter prev c.source = some 10 := by
  simp [source]

theorem head?_clauses : c.clauses.head?.any Bytes.isWord = false := by
  rw [clauses]
  cases c.parent <;> rfl

theorem opening_not_mem_clauses : Block.opening ∉ c.clauses := by
  rw [clauses, List.mem_append, List.mem_cons, not_or, not_or]
  exact ⟨not_mem_extendsClause c.parent rfl (by decide), by decide, c.more_plain⟩

theorem balanced_inner : Balanced c.inner :=
  .plain rfl (.flatMap fun m _ => m.balanced_source)

theorem class_not_mem_words : Bytes.ofString "class" ∉ Bytes.words c.inner := by
  have hends : ∀ m ∈ c.members, Read.wordStart (Bytes.lastAfter none m.source) = true := by
    intro m _
    rw [m.lastAfter_source]
    rfl
  have hwords := Bytes.words_flatMap hends []
  rw [List.append_nil, Bytes.words_nil, List.append_nil] at hwords
  rw [inner, Bytes.words_sep rfl, hwords]
  simp only [List.mem_flatMap, not_exists, not_and]
  exact fun m _ => m.class_not_mem_words

theorem blocksFrom_source {prev : Option UInt8} (hprev : Read.wordStart prev = true) (s : Bytes) :
    ClassBlock.blocksFrom prev (c.source ++ s) = c.block :: ClassBlock.blocksFrom (some 10) s := by
  have hclass := ClassBlock.blocksFrom_class hprev c.name c.head?_clauses
    c.opening_not_mem_clauses c.balanced_inner c.class_not_mem_words s
  simpa [source, block] using hclass

/-- The search for classes takes classes one by one. -/
theorem blocksFrom_flatMap {prev : Option UInt8} (hprev : Read.wordStart prev = true)
    (classes : List (BracedClass reserved)) (s : Bytes) :
    ClassBlock.blocksFrom prev (classes.flatMap source ++ s) = classes.map block ++
      ClassBlock.blocksFrom (Bytes.lastAfter prev (classes.flatMap source)) s := by
  -- only the first class may stand at the very start of the text
  induction classes generalizing prev with
  | nil => rfl
  | cons c classes ih =>
    rw [List.flatMap_cons, List.append_assoc, c.blocksFrom_source hprev, ih rfl, List.map_cons,
      Bytes.lastAfter_append, c.lastAfter_source, List.cons_append]

end BracedClass

/-- A form that begins with a keyword passes over a member if it is not read at the visibility. -/
theorem Form.LedBy.valuesFrom_member {α : Type} {form : Form α} {keywords : List Bytes}
    (hled : form.LedBy keywords) (m : Member) {s : Bytes}
    (hmiss : form (some 0x20) (m.visibility.text ++ 0x20 :: (m.tail ++ s)) = none)
    (hfree : ∀ k ∈ Bytes.words m.tail, k ∉ keywords) :
    form.valuesFrom (some 10) (m.source ++ s) = form.valuesFrom (some 10) s := by
  have hindent : form.Silent (some 10) (Bytes.ofString "    ")
      (m.visibility.text ++ 0x20 :: m.tail ++ s) := by
    apply hled.silent rfl
    intro w hw
    cases hw
  -- the visibility is the one keyword of the member
  have hrest : form.Silent (some 0x20) (m.visibility.text ++ 0x20 :: m.tail) s := by
    apply hled.silent_after_miss m.visibility.isWord_text hmiss _ hfree
    rw [m.endsLine]
    rfl
  have hsilent : form.Silent (some 10) m.source s := hindent.append hrest
  rw [valuesFrom_silent hsilent, m.lastAfter_source]

/-- What is read in the block of a class with members of two kinds, if the form is silent at the
braces. -/
theorem Form.values_body {α β γ : Type} {form : Form α} {source : β → Bytes}
    {source' : γ → Bytes} {f : β → List α} {g : γ → List α}
    (hopen : ∀ s, form.Silent none [Block.opening, 10] s)
    (hclose : form.Silent (some 10) [Block.closing] [])
    (hfirst : ∀ b s, form.valuesFrom (some 10) (source b ++ s) =
      f b ++ form.valuesFrom (some 10) s)
    (hsecond : ∀ c s, form.valuesFrom (some 10) (source' c ++ s) =
      g c ++ form.valuesFrom (some 10) s) (firsts : List β) (seconds : List γ) :
    form.values (Block.opening :: (10 :: (firsts.flatMap source ++ seconds.flatMap source') ++
      [Block.closing])) = firsts.flatMap f ++ seconds.flatMap g := by
  have hend : form.valuesFrom (some 10) [Block.closing] = [] := by
    have hskip := valuesFrom_silent hclose
    rw [List.append_nil, valuesFrom_nil] at hskip
    exact hskip
  have hstart := valuesFrom_silent (hopen
    (firsts.flatMap source ++ seconds.flatMap source' ++ [Block.closing]))
  simp only [List.cons_append, List.nil_append, Bytes.lastAfter_cons, Bytes.lastAfter_nil] at hstart
  rw [values_eq_valuesFrom, List.cons_append, hstart, List.append_assoc,
    valuesFrom_flatMap hfirst, valuesFrom_flatMap hsecond, hend, List.append_nil]

/-! ## Heads of methods

A method can be told from a field by what ends its head: between the place where a method begins and
its opening parenthesis there is nothing but types, names and space. -/

/-- A byte in front of the parameter list of a method: of a type, of a word or separating. -/
def Read.isHeadByte (b : UInt8) : Bool := Java.isTypeByte b || Bytes.isSpace b

/-- The first byte that does not belong to the head of a method is an opening parenthesis. -/
def Read.Opens (s : Bytes) : Prop := (s.dropWhile isHeadByte).head? = some 0x28

namespace Read

theorem isHeadByte_of_isWord {b : UInt8} (h : Bytes.isWord b = true) : isHeadByte b = true := by
  simp [isHeadByte, Java.isTypeByte, h]

theorem isHeadByte_of_isSpace {b : UInt8} (h : Bytes.isSpace b = true) : isHeadByte b = true := by
  simp [isHeadByte, h]

theorem isHeadByte_of_isTypeByte {b : UInt8} (h : Java.isTypeByte b = true) :
    isHeadByte b = true := by
  simp [isHeadByte, h]

theorem Opens.append {u s : Bytes} (hu : ∀ b ∈ u, isHeadByte b = true) (hs : Opens s) :
    Opens (u ++ s) := by
  rw [Opens, List.dropWhile_append_of_pos hu]
  exact hs

theorem Opens.of_spaces {s : Bytes} (hs : Opens (spaces s)) : Opens s := by
  obtain ⟨u, hsplit, hu⟩ := spaces_split s
  rw [hsplit]
  exact hs.append fun b hb => isHeadByte_of_isSpace (hu b hb)

theorem Opens.of_spaces1 {s t : Bytes} (h : spaces1 s = some t) (ht : Opens t) : Opens s := by
  obtain ⟨b, u, rfl, hb, hu⟩ := spaces1_eq_some h
  refine ht.append (u := b :: u) fun c hc => ?_
  rcases List.mem_cons.mp hc with rfl | hc
  · exact isHeadByte_of_isSpace hb
  · exact isHeadByte_of_isSpace (hu c hc)

theorem Opens.of_literal {k : String} {s t : Bytes}
    (hk : (Bytes.ofString k).all isHeadByte = true) (h : literal k s = some t) (ht : Opens t) : Opens s := by
  rw [literal_eq_some h]
  exact ht.append (List.all_eq_true.mp hk)

theorem Opens.of_visibility {s w t : Bytes} (h : visibility s = some (w, t)) (ht : Opens t) :
    Opens s := by
  obtain ⟨v, -, rfl⟩ := visibility_eq_some h
  exact ht.append fun b hb => isHeadByte_of_isWord (v.isWord_text b hb)

theorem opens_of_signature {s : Bytes} {r : (Bytes × Bytes) × Bytes}
    (h : signature s = some r) : Opens s := by
  simp only [signature, parenthesized, Option.bind_eq_bind, Option.bind_eq_some_iff] at h
  obtain ⟨⟨w, t⟩, hword, -, ⟨t', hbyte, -⟩, -⟩ := h
  obtain ⟨rfl, -, hw⟩ := run1_eq_some hword
  refine Opens.append (fun b hb => isHeadByte_of_isWord (hw b hb)) (Opens.of_spaces ?_)
  rw [byte_eq_some hbyte]
  rfl

end Read

/-- The form is read at the edge of a word only, and what it reads there is the head of a method. -/
structure Form.HeadLed {α : Type} (form : Form α) : Prop where
  boundary : ∀ prev s r, form prev s = some r → Read.wordBoundary prev s = true
  opens : ∀ prev s r, form prev s = some r → Read.Opens s

namespace Form.HeadLed

variable {α : Type} {form : Form α}

theorem silent_gap (hled : form.HeadLed) {prev : Option UInt8} {u : Bytes}
    (hprev : Read.wordStart prev = true) (hu : u.any Bytes.isWord = false) (s : Bytes) :
    form.Silent prev u s := by
  induction u generalizing prev with
  | nil => trivial
  | cons b u ih =>
    rw [List.any_cons, Bool.or_eq_false_iff] at hu
    obtain ⟨hb, hu⟩ := hu
    refine ⟨?_, ih (by simp [Read.wordStart, hb]) hu⟩
    cases h : form prev (b :: (u ++ s)) with
    | none => rfl
    | some r =>
      -- no word ends here and none begins
      have hedge := hled.boundary _ _ r h
      simp only [Read.wordStart, Bool.not_eq_true'] at hprev
      simp [Read.wordBoundary, hprev, hb] at hedge

/-- No method begins in front of a byte that ends its head in another way. -/
theorem silent_until (hled : form.HeadLed) {w : Bytes} {c : UInt8}
    (hw : ∀ b ∈ w, Read.isHeadByte b = true) (hc : Read.isHeadByte c = false) (hne : c ≠ 0x28)
    (prev : Option UInt8) (s : Bytes) : form.Silent prev (w ++ [c]) s := by
  -- wherever the form starts in `w`, its head would have to end at `c`
  have hmiss : ∀ (prev : Option UInt8) (v : Bytes), (∀ b ∈ v, Read.isHeadByte b = true) →
      form prev (v ++ c :: s) = none := by
    intro prev v hv
    cases h : form prev (v ++ c :: s) with
    | none => rfl
    | some r =>
      have hopens := hled.opens _ _ r h
      rw [Read.Opens, Read.dropWhile_append_stop hv (by simp [hc])] at hopens
      exact absurd (Option.some.inj hopens) hne
  induction w generalizing prev with
  | nil => exact ⟨hmiss prev [] (List.forall_mem_nil _), trivial⟩
  | cons b w ih =>
    refine ⟨?_, ih (fun d hd => hw d (List.mem_cons_of_mem _ hd)) (some b)⟩
    have hb := hmiss prev (b :: w) hw
    simpa using hb

end Form.HeadLed

end ClassOutline
