import ClassOutline.Extract.Php
import ClassOutline.Proofs.BracedClass
import ClassOutline.Proofs.EdgeInvariant
import ClassOutline.Proofs.Text.OneLine

/-!
# PHP source as it is usually written

Syntax trees for the part of PHP that an outline shows, and their source text: classes with
properties and methods, and functions behind them.

Methods and functions begin with the same keyword. What keeps them apart is where it stands: the
search for functions looks at the start of lines only, where a method has its visibility
(`valuesFrom_function_method`), and the search for methods looks at the blocks of classes only.

## Main results

- `valuesFrom_property_source`, `valuesFrom_property_method`: the search for properties takes every
  property and passes over every method
- `valuesFrom_method_source`, `valuesFrom_method_property`: the search for methods does the reverse
- `valuesFrom_function_source`, `valuesFrom_function_class`: the search for functions takes every
  function and passes over every class
- `outline_program`: the outline of a program has exactly its classes and its functions
-/

namespace ClassOutline.Php

/-! ## Syntax trees -/

/-- The words with a meaning of their own in a declaration. -/
def reserved : List Bytes :=
  [Bytes.ofString "class", Bytes.ofString "extends", Bytes.ofString "function",
    Bytes.ofString "static", Bytes.ofString "public", Bytes.ofString "protected",
    Bytes.ofString "private"]

structure PropertyDecl where
  visibility : Visibility
  name : Name reserved

/-- A function, or a method without its visibility. -/
structure FunctionDecl where
  name : Name reserved
  params : List (Name reserved)

structure MethodDecl extends FunctionDecl where
  visibility : Visibility

structure ClassDecl where
  name : Name reserved
  parent : Option (Name reserved)
  properties : List PropertyDecl
  methods : List MethodDecl

/-- A program: classes, and functions behind them. -/
structure Program where
  classes : List ClassDecl
  functions : List FunctionDecl

/-! ## Source text -/

/-- The line of a property. -/
def PropertyDecl.source (p : PropertyDecl) : Bytes :=
  [Bytes.ofString "    ", p.visibility.text, Bytes.ofString " $", p.name.text,
    Bytes.ofString ";\n"].flatten

/-- The parameters of a function, as they stand between the parentheses. -/
def FunctionDecl.paramText (f : FunctionDecl) : Bytes :=
  Bytes.commaList (f.params.map fun p => Bytes.ofString "$" ++ p.text)

def FunctionDecl.head (f : FunctionDecl) : Bytes :=
  [Bytes.ofString "function ", f.name.text, Bytes.ofString "(", f.paramText,
    Bytes.ofString ")"].flatten

/-- The lines of a function. -/
def FunctionDecl.source (f : FunctionDecl) : Bytes :=
  [f.head, Bytes.ofString " \x7b\n", Bytes.ofString "\x7d\n"].flatten

/-- The lines of a method. -/
def MethodDecl.source (m : MethodDecl) : Bytes :=
  [Bytes.ofString "    ", m.visibility.text, Bytes.ofString " ", m.head,
    Bytes.ofString " \x7b\n", Bytes.ofString "    \x7d\n"].flatten

/-- The lines of a class. -/
def ClassDecl.source (c : ClassDecl) : Bytes :=
  [Bytes.ofString "class ", c.name.text, extendsClause c.parent, Bytes.ofString " \x7b\n",
    c.properties.flatMap PropertyDecl.source, c.methods.flatMap MethodDecl.source,
    Bytes.ofString "\x7d\n"].flatten

/-- The lines of a program, behind the opening tag. -/
def Program.source (p : Program) : Bytes :=
  [Bytes.ofString "<?php\n", p.classes.flatMap ClassDecl.source,
    p.functions.flatMap FunctionDecl.source].flatten

/-! ## What an outline shows of them -/

/-- The attribute of a property. It has no type, and the dollar sign belongs to its name. -/
def PropertyDecl.info (p : PropertyDecl) : Attribute :=
  ⟨Bytes.ofString "$" ++ p.name.text, [], p.visibility.text⟩

def MethodDecl.info (m : MethodDecl) : Method :=
  ⟨m.name.text, m.paramText, [], m.visibility.text⟩

def FunctionDecl.info (f : FunctionDecl) : FunctionInfo :=
  ⟨f.name.text, f.paramText, []⟩

def ClassDecl.info (c : ClassDecl) : ClassInfo where
  name := c.name.text
  attributes := c.properties.map PropertyDecl.info
  methods := c.methods.map MethodDecl.info
  parent := c.parent.map Name.text
  interfaces := []

/-! ## Parameters -/

namespace FunctionDecl

variable (f : FunctionDecl)

/-- A byte that is neither a word byte nor in the marks between names is not in a parameter list. -/
theorem not_mem_paramText {b : UInt8} (hword : Bytes.isWord b = false)
    (hmarks : b ∉ Bytes.ofString ", $") : b ∉ f.paramText := by
  have hsplit : Bytes.ofString ", $" = Bytes.ofString ", " ++ Bytes.ofString "$" := rfl
  rw [hsplit, List.mem_append, not_or] at hmarks
  apply Bytes.not_mem_commaList hmarks.1
  intro x hx
  obtain ⟨p, -, rfl⟩ := List.mem_map.mp hx
  rw [List.mem_append, not_or]
  exact ⟨hmarks.2, p.not_mem_text hword⟩

theorem collapse_paramText : f.paramText.collapse = f.paramText := by
  refine Bytes.collapse_commaList fun x hx => ?_
  obtain ⟨p, -, rfl⟩ := List.mem_map.mp hx
  have hsign : ∀ b ∈ Bytes.ofString "$", Bytes.isSolid b = true := List.all_eq_true.mp rfl
  apply Bytes.OneLine.piece
  · exact List.append_ne_nil_of_left_ne_nil (by decide) _
  · intro b hb
    rcases List.mem_append.mp hb with hb | hb
    · exact hsign b hb
    · exact Bytes.isSolid_of_isWord (p.isWord b hb)

theorem head_eq : f.head =
    Bytes.ofString "function " ++ (f.name.text ++ 0x28 :: (f.paramText ++ [0x29])) := by
  simp [head]

theorem source_eq : f.source = f.head ++ 0x20 :: [Block.opening, 10, Block.closing, 10] := by
  simp [source, Bytes.ofString_openBrace, Bytes.ofString_closeBrace]

/-- The words of a head: the keyword, and words that are not reserved. -/
theorem words_head : Bytes.words f.head =
    [Bytes.ofString "function", f.name.text] ++ f.params.map Name.text := by
  have hkey : Bytes.words (Bytes.ofString "function ") = [Bytes.ofString "function"] := by decide
  have hsign : ∀ p : Name reserved, Bytes.words (Bytes.ofString "$" ++ p.text) = [p.text] := by
    intro p
    rw [Bytes.words_append rfl, p.words_text]
    rfl
  rw [head_eq, Bytes.words_append rfl, hkey, Bytes.words_append_sep rfl, f.name.words_text,
    Bytes.words_append_sep rfl, paramText, Bytes.words_commaList, List.flatMap_map]
  simp [hsign, List.map_eq_flatMap]

/-- The only reserved word of a head is the keyword for functions. -/
theorem not_mem_words_head {k : Bytes} (hk : k ∈ reserved)
    (hne : k ≠ Bytes.ofString "function") : k ∉ Bytes.words f.head := by
  have hname : ∀ n : Name reserved, k ≠ n.text := by
    rintro n rfl
    exact n.notReserved hk
  rw [f.words_head]
  simp only [List.mem_append, List.mem_cons, List.mem_map, List.not_mem_nil, or_false, not_or,
    not_exists, not_and]
  exact ⟨⟨hne, hname f.name⟩, fun n _ h => hname n h.symm⟩

theorem newline_not_mem_head : (10 : UInt8) ∉ f.head := by
  rw [head_eq]
  simp only [List.mem_append, List.mem_cons, List.not_mem_nil, not_or, or_false]
  exact ⟨by decide, f.name.not_mem_text rfl, by decide, f.not_mem_paramText rfl (by decide),
    by decide⟩

end FunctionDecl

/-! ## Reading one declaration -/

theorem property_append {prev : Option UInt8} (hprev : Read.wordStart prev = true) (v : Visibility)
    (n : Name reserved) (s : Bytes) :
    property prev (v.text ++ 0x20 :: 0x24 :: (n.text ++ 0x3B :: s)) =
      some (⟨0x24 :: n.text, [], v.text⟩, s) := by
  have hvis := Read.visibility_append v (0x20 :: 0x24 :: (n.text ++ 0x3B :: s))
  have hsp : Read.spaces1 (0x20 :: 0x24 :: (n.text ++ 0x3B :: s)) =
      some (0x24 :: (n.text ++ 0x3B :: s)) := rfl
  have hsign : Read.byte 0x24 (skipStatic (0x24 :: (n.text ++ 0x3B :: s))) =
      some (n.text ++ 0x3B :: s) := rfl
  have hname := n.word_text (s := 0x3B :: s) rfl
  have hend : Read.memberEnd (Read.spaces (0x3B :: s)) = some s := rfl
  simp [property, hprev, hvis, hsp, hsign, hname, hend]

/-- Where a property has its dollar sign, a method has its keyword. -/
theorem property_function (prev : Option UInt8) (v : Visibility) (s : Bytes) :
    property prev (v.text ++ 0x20 :: (Bytes.ofString "function " ++ s)) = none := by
  have hvis := Read.visibility_append v (0x20 :: (Bytes.ofString "function " ++ s))
  have hsp : Read.spaces1 (0x20 :: (Bytes.ofString "function " ++ s)) =
      some (Bytes.ofString "function " ++ s) := rfl
  have hsign : Read.byte 0x24 (skipStatic (Bytes.ofString "function " ++ s)) = none := rfl
  simp [property, hvis, hsp, hsign]

theorem property_ledBy : property.LedBy Visibility.keywords := by
  intro prev s r h
  simp only [property, Option.bind_eq_bind, Option.bind_eq_some_iff, Option.guard_eq_some'] at h
  obtain ⟨-, hprev, ⟨w, t⟩, hvis, t', hsp, -⟩ := h
  exact ⟨hprev, Read.takeWhile_visibility hvis hsp⟩

theorem functionHead_append (f : FunctionDecl) (s : Bytes) :
    functionHead (f.head ++ s) = some ((f.name.text, f.paramText), s) := by
  have hparams : (0x29 : UInt8) ∉ f.paramText := f.not_mem_paramText rfl (by decide)
  have hshape : f.head ++ s =
      Bytes.ofString "function " ++ (f.name.text ++ 0x28 :: (f.paramText ++ 0x29 :: s)) := by
    simp [f.head_eq]
  have hsig := Read.signature_append f.name.ne_nil f.name.isWord hparams s
  have hstart := f.name.head_isSpace (0x28 :: (f.paramText ++ 0x29 :: s))
  rw [hshape]
  generalize f.name.text ++ 0x28 :: (f.paramText ++ 0x29 :: s) = rest at hsig hstart ⊢
  have hlit : Read.literal "function" (Bytes.ofString "function " ++ rest) =
      some (0x20 :: rest) := rfl
  simp [functionHead, hlit, Read.spaces1_blank hstart, hsig]

theorem method_append {prev : Option UInt8} (hprev : Read.wordStart prev = true) (m : MethodDecl)
    (s : Bytes) :
    method prev (m.visibility.text ++ 0x20 :: (m.head ++ s)) = some (m.info, s) := by
  have hvis := Read.visibility_append m.visibility (0x20 :: (m.head ++ s))
  have hedge := Read.wordBoundary_visibility hprev m.visibility (0x20 :: (m.head ++ s))
  -- the keyword for functions is neither space nor the optional keyword in front of it
  have hskip : skipStatic (Read.spaces (0x20 :: (m.head ++ s))) = m.head ++ s := by
    rw [m.head_eq, List.append_assoc]
    rfl
  have hhead := functionHead_append m.toFunctionDecl s
  simp [method, hedge, hvis, hskip, hhead, m.collapse_paramText, MethodDecl.info]

theorem function_append {prev : Option UInt8} (hprev : Read.lineStart prev = true)
    (f : FunctionDecl) (s : Bytes) : function prev (f.head ++ s) = some (f.info, s) := by
  have hstart : Read.spaces (f.head ++ s) = f.head ++ s := by
    rw [f.head_eq, List.append_assoc]
    rfl
  have hhead := functionHead_append f s
  simp [function, hprev, hstart, hhead, f.collapse_paramText, FunctionDecl.info]

theorem function_lineLed : function.LineLed := by
  intro prev s hprev
  simp [function, hprev, guard, failure]

/-! ## The head of a method -/

theorem opens_of_functionHead {s : Bytes} {r : (Bytes × Bytes) × Bytes}
    (h : functionHead s = some r) : Read.Opens s := by
  simp only [functionHead, Option.bind_eq_bind, Option.bind_eq_some_iff] at h
  obtain ⟨t, hlit, t', hsp, hsig⟩ := h
  exact Read.Opens.of_literal rfl hlit
    (Read.Opens.of_spaces1 hsp (Read.opens_of_signature hsig))

theorem opens_of_skipStatic {s : Bytes} (h : Read.Opens (skipStatic s)) : Read.Opens s := by
  unfold skipStatic at h
  cases hlit : Read.literal "static" s with
  | none =>
    rw [hlit] at h
    exact h
  | some t =>
    cases hsp : Read.spaces1 t with
    | none =>
      rw [hlit, Option.bind_some, hsp] at h
      exact h
    | some t' =>
      rw [hlit, Option.bind_some, hsp] at h
      exact Read.Opens.of_literal rfl hlit (Read.Opens.of_spaces1 hsp h)

theorem method_headLed : method.HeadLed where
  boundary := by
    intro prev s r h
    simp only [method, Option.bind_eq_bind, Option.bind_eq_some_iff, Option.guard_eq_some'] at h
    obtain ⟨-, hedge, -⟩ := h
    exact hedge
  opens := by
    intro prev s r h
    simp only [method, Option.bind_eq_bind, Option.bind_eq_some_iff, Option.guard_eq_some'] at h
    obtain ⟨-, -, ⟨head, t⟩, hhead, -⟩ := h
    -- the visibility is optional, and what is read without it starts at the same place
    have hopens := Read.Opens.of_spaces (opens_of_skipStatic (opens_of_functionHead hhead))
    cases hvis : Read.visibility s with
    | none =>
      rw [hvis] at hopens
      exact hopens
    | some w =>
      rw [hvis] at hopens
      exact Read.Opens.of_visibility hvis hopens

/-! ## Members -/

def PropertyDecl.tail (p : PropertyDecl) : Bytes := 0x24 :: (p.name.text ++ [0x3B, 10])

def MethodDecl.tail (m : MethodDecl) : Bytes :=
  m.head ++ 0x20 :: Block.opening :: ((10 :: Bytes.ofString "    ") ++ Block.closing :: [10])

theorem PropertyDecl.source_eq (p : PropertyDecl) :
    p.source = Bytes.ofString "    " ++ (p.visibility.text ++ 0x20 :: p.tail) := by
  have hsign : Bytes.ofString " $" = [0x20, 0x24] := rfl
  simp [PropertyDecl.source, PropertyDecl.tail, hsign]

theorem MethodDecl.source_eq (m : MethodDecl) :
    m.source = Bytes.ofString "    " ++ (m.visibility.text ++ 0x20 :: m.tail) := by
  have hclose : Bytes.ofString "    \x7d\n" = Bytes.ofString "    " ++ [Block.closing, 10] := rfl
  simp [MethodDecl.source, MethodDecl.tail, Bytes.ofString_openBrace, hclose]

theorem PropertyDecl.words_tail (p : PropertyDecl) : Bytes.words p.tail = [p.name.text] := by
  rw [PropertyDecl.tail, Bytes.words_sep rfl, Bytes.words_append_sep rfl, p.name.words_text]
  rfl

theorem MethodDecl.words_tail (m : MethodDecl) : Bytes.words m.tail = Bytes.words m.head := by
  have hend : Bytes.words (Block.opening :: ((10 :: Bytes.ofString "    ") ++
      Block.closing :: [10])) = [] := by decide
  rw [MethodDecl.tail, Bytes.words_append_sep rfl, hend, List.append_nil]

theorem FunctionDecl.balanced_head (f : FunctionDecl) : Balanced f.head := by
  have hparams : Balanced f.paramText :=
    .of_not_mem (f.not_mem_paramText rfl (by decide)) (f.not_mem_paramText rfl (by decide))
  have hkey : Balanced (Bytes.ofString "function ") := .of_all rfl
  rw [f.head_eq]
  have hlist : Balanced (0x28 :: (f.paramText ++ [0x29])) :=
    .plain rfl (hparams.append (.of_all rfl))
  exact hkey.append ((Balanced.of_name f.name).append hlist)

def PropertyDecl.member (p : PropertyDecl) : Member where
  visibility := p.visibility
  tail := p.tail
  balanced := .plain rfl ((Balanced.of_name p.name).append (.of_all rfl))
  endsLine := by simp [PropertyDecl.tail]
  declaresNone := by
    rw [p.words_tail, List.mem_singleton]
    intro h
    exact p.name.notReserved (h ▸ by decide)

/-- A method as a member of its class. Its own braces are the only ones. -/
def MethodDecl.member (m : MethodDecl) : Member where
  visibility := m.visibility
  tail := m.tail
  balanced := by
    have hblock : Balanced (Block.opening :: ((10 :: Bytes.ofString "    ") ++
        Block.closing :: [10])) :=
      .nest (.of_all rfl) (.of_all rfl)
    exact m.balanced_head.append (.plain rfl hblock)
  endsLine := by simp [MethodDecl.tail]
  declaresNone := by
    rw [m.words_tail]
    exact m.not_mem_words_head (by decide) (by decide)

theorem PropertyDecl.source_member (p : PropertyDecl) : p.member.source = p.source :=
  p.source_eq.symm

theorem MethodDecl.source_member (m : MethodDecl) : m.member.source = m.source := m.source_eq.symm

/-! ## Searching the members of a class -/

/-- The search for properties takes a property. -/
theorem valuesFrom_property_source (p : PropertyDecl) (s : Bytes) :
    property.valuesFrom (some 10) (p.source ++ s) =
      [p.info] ++ property.valuesFrom (some 10) s := by
  have hshape : p.source ++ s = Bytes.ofString "    " ++ ((p.visibility.text ++
      0x20 :: 0x24 :: (p.name.text ++ [0x3B])) ++ ([10] ++ s)) := by
    simp [p.source_eq, PropertyDecl.tail]
  rw [hshape]
  refine Form.valuesFrom_line ?indent ?ne ?hit ?gap ?last
  case indent => exact property_ledBy.silent rfl (by decide) _
  case ne => simp
  case hit =>
    have hread : property (some 0x20) _ = _ :=
      property_append rfl p.visibility p.name (10 :: s)
    have hsign : Bytes.ofString "$" = [0x24] := rfl
    simpa [PropertyDecl.info, hsign] using hread
  case gap =>
    rw [show Bytes.lastAfter (some 10) _ = some 0x3B by simp]
    exact property_ledBy.silent rfl (by decide) _
  case last => simp

/-- It passes over a method, which has its keyword where a property has its dollar sign. -/
theorem valuesFrom_property_method (m : MethodDecl) (s : Bytes) :
    property.valuesFrom (some 10) (m.source ++ s) = property.valuesFrom (some 10) s := by
  rw [← m.source_member]
  apply property_ledBy.valuesFrom_member m.member
  case hmiss =>
    have hshape : m.member.tail ++ s = Bytes.ofString "function " ++ (m.name.text ++
        0x28 :: (m.paramText ++ 0x29 :: 0x20 :: Block.opening :: ((10 :: Bytes.ofString "    ") ++
          Block.closing :: 10 :: s))) := by
      simp [MethodDecl.member, MethodDecl.tail, m.head_eq]
    rw [hshape]
    exact property_function _ m.visibility _
  case hfree =>
    have hsub : ∀ k ∈ Visibility.keywords, k ∈ reserved ∧ k ≠ Bytes.ofString "function" := by
      decide
    intro w hw hmem
    obtain ⟨hreserved, hne⟩ := hsub w hmem
    have hhead := m.not_mem_words_head hreserved hne
    rw [← m.words_tail] at hhead
    exact hhead hw

/-- The search for methods takes a method. -/
theorem valuesFrom_method_source (m : MethodDecl) (s : Bytes) :
    method.valuesFrom (some 10) (m.source ++ s) = [m.info] ++ method.valuesFrom (some 10) s := by
  have hshape : m.source ++ s = Bytes.ofString "    " ++ ((m.visibility.text ++
      0x20 :: m.head) ++ ((0x20 :: Block.opening :: ((10 :: Bytes.ofString "    ") ++
        Block.closing :: [10])) ++ s)) := by
    simp [m.source_eq, MethodDecl.tail]
  rw [hshape]
  refine Form.valuesFrom_line ?indent ?ne ?hit ?gap ?last
  case indent => exact method_headLed.silent_gap rfl rfl _
  case ne => simp
  case hit =>
    have hread : method (some 0x20) _ = _ := method_append rfl m
      ((0x20 :: Block.opening :: ((10 :: Bytes.ofString "    ") ++ Block.closing :: [10])) ++ s)
    simpa using hread
  case gap =>
    rw [show Bytes.lastAfter (some 10) _ = some 0x29 by simp [m.head_eq]]
    exact method_headLed.silent_gap rfl rfl _
  case last => simp

/-- It passes over a property: neither the visibility nor the name has a parenthesis behind it. -/
theorem valuesFrom_method_property (p : PropertyDecl) (s : Bytes) :
    method.valuesFrom (some 10) (p.source ++ s) = method.valuesFrom (some 10) s := by
  have hshape : p.source = Bytes.ofString "    " ++ ((p.visibility.text ++ [0x20] ++ [0x24]) ++
      ((p.name.text ++ [0x3B]) ++ [10])) := by
    simp [p.source_eq, PropertyDecl.tail]
  have hvis : ∀ b ∈ p.visibility.text ++ [0x20], Read.isHeadByte b = true := by
    intro b hb
    rcases List.mem_append.mp hb with hb | hb
    · exact Read.isHeadByte_of_isWord (p.visibility.isWord_text b hb)
    · rw [List.mem_singleton.mp hb]
      rfl
  have hname : ∀ b ∈ p.name.text, Read.isHeadByte b = true := by
    intro b hb
    exact Read.isHeadByte_of_isWord (p.name.isWord b hb)
  -- two heads begin in the line: one ends at the dollar sign, the other at the semicolon
  have hsilent : method.Silent (some 10) p.source s := by
    rw [hshape]
    refine Form.Silent.append (method_headLed.silent_gap rfl rfl _) ?_
    refine Form.Silent.append (method_headLed.silent_until hvis rfl (by decide) _ _) ?_
    refine Form.Silent.append (method_headLed.silent_until hname rfl (by decide) _ _) ?_
    rw [Bytes.lastAfter_append]
    exact method_headLed.silent_gap rfl rfl _
  rw [Form.valuesFrom_silent hsilent]
  simp [hshape]

/-! ## Searching a program for functions -/

/-- A line that begins with a visibility begins no function. -/
theorem function_visibility (v : Visibility) (s : Bytes) :
    function (some 10) (Bytes.ofString "    " ++ (v.text ++ s)) = none := by
  cases v <;> rfl

/-- The search for functions takes a function. -/
theorem valuesFrom_function_source (f : FunctionDecl) (s : Bytes) :
    function.valuesFrom (some 10) (f.source ++ s) =
      [f.info] ++ function.valuesFrom (some 10) s := by
  have hshape : f.source ++ s =
      f.head ++ ([0x20, Block.opening] ++ 10 :: ([Block.closing] ++ 10 :: s)) := by
    simp [f.source_eq]
  have hne : f.head ≠ [] := by
    rw [f.head_eq]
    exact List.append_ne_nil_of_left_ne_nil (by decide) _
  rw [hshape, function_lineLed.valuesFrom_hit hne f.newline_not_mem_head (by decide)
      (function_append rfl f _), function_lineLed.valuesFrom_miss (by decide) rfl]

theorem valuesFrom_function_property (p : PropertyDecl) (s : Bytes) :
    function.valuesFrom (some 10) (p.source ++ s) = function.valuesFrom (some 10) s := by
  have hshape : p.source ++ s = (Bytes.ofString "    " ++ (p.visibility.text ++
      0x20 :: 0x24 :: (p.name.text ++ [0x3B]))) ++ 10 :: s := by
    simp [p.source_eq, PropertyDecl.tail]
  have hline : (10 : UInt8) ∉ Bytes.ofString "    " ++ (p.visibility.text ++
      0x20 :: 0x24 :: (p.name.text ++ [0x3B])) := by
    simp only [List.mem_append, List.mem_cons, List.not_mem_nil, or_false, not_or]
    exact ⟨by decide, p.visibility.newline_not_mem_text, by decide, by decide,
      p.name.not_mem_text rfl, by decide⟩
  rw [hshape]
  refine function_lineLed.valuesFrom_miss hline ?_
  rw [List.append_assoc, List.append_assoc]
  exact function_visibility p.visibility _

/-- The search for functions passes over a method, whose visibility stands in front of the
keyword. -/
theorem valuesFrom_function_method (m : MethodDecl) (s : Bytes) :
    function.valuesFrom (some 10) (m.source ++ s) = function.valuesFrom (some 10) s := by
  have hshape : m.source ++ s = (Bytes.ofString "    " ++ (m.visibility.text ++
      0x20 :: (m.head ++ [0x20, Block.opening]))) ++ 10 ::
        ((Bytes.ofString "    " ++ [Block.closing]) ++ 10 :: s) := by
    simp [m.source_eq, MethodDecl.tail]
  have hline : (10 : UInt8) ∉ Bytes.ofString "    " ++ (m.visibility.text ++
      0x20 :: (m.head ++ [0x20, Block.opening])) := by
    simp only [List.mem_append, List.mem_cons, List.not_mem_nil, or_false, not_or]
    exact ⟨by decide, m.visibility.newline_not_mem_text, by decide, m.newline_not_mem_head,
      by decide, by decide⟩
  have hmiss : ∀ t, function (some 10) ((Bytes.ofString "    " ++ (m.visibility.text ++
      0x20 :: (m.head ++ [0x20, Block.opening]))) ++ t) = none := by
    intro t
    rw [List.append_assoc, List.append_assoc]
    exact function_visibility m.visibility _
  -- the line of the head, then the line of the brace
  rw [hshape, function_lineLed.valuesFrom_miss hline (hmiss _),
    function_lineLed.valuesFrom_miss (by decide) rfl]

theorem valuesFrom_function_class (c : ClassDecl) (s : Bytes) :
    function.valuesFrom (some 10) (c.source ++ s) = function.valuesFrom (some 10) s := by
  have hshape : c.source ++ s = (Bytes.ofString "class " ++ (c.name.text ++
      (extendsClause c.parent ++ [0x20, Block.opening]))) ++ 10 ::
        (c.properties.flatMap PropertyDecl.source ++ (c.methods.flatMap MethodDecl.source ++
          ([Block.closing] ++ 10 :: s))) := by
    simp [ClassDecl.source, Bytes.ofString_openBrace, Bytes.ofString_closeBrace]
  have hline : (10 : UInt8) ∉ Bytes.ofString "class " ++ (c.name.text ++
      (extendsClause c.parent ++ [0x20, Block.opening])) := by
    simp only [List.mem_append, not_or]
    exact ⟨by decide, c.name.not_mem_text rfl, not_mem_extendsClause c.parent rfl (by decide),
      by decide⟩
  have hmiss : ∀ t, function (some 10) ((Bytes.ofString "class " ++ (c.name.text ++
      (extendsClause c.parent ++ [0x20, Block.opening]))) ++ t) = none := by
    intro t
    rw [List.append_assoc]
    rfl
  rw [hshape, function_lineLed.valuesFrom_miss hline (hmiss _),
    Form.valuesFrom_flatMap_miss valuesFrom_function_property,
    Form.valuesFrom_flatMap_miss valuesFrom_function_method,
    function_lineLed.valuesFrom_miss (by decide) rfl]

theorem values_function (p : Program) :
    function.values p.source = p.functions.map FunctionDecl.info := by
  have htag : Bytes.ofString "<?php\n" = Bytes.ofString "<?php" ++ [10] := rfl
  have hshape : p.source = Bytes.ofString "<?php" ++ 10 :: (p.classes.flatMap ClassDecl.source ++
      (p.functions.flatMap FunctionDecl.source ++ [])) := by
    simp [Program.source, htag]
  rw [Form.values_eq_valuesFrom, hshape, function_lineLed.valuesFrom_miss (by decide) rfl,
    Form.valuesFrom_flatMap_miss valuesFrom_function_class,
    Form.valuesFrom_flatMap valuesFrom_function_source, Form.valuesFrom_nil, List.append_nil,
    List.map_eq_flatMap]

/-! ## The outline -/

namespace ClassDecl

variable (c : ClassDecl)

def braced : BracedClass reserved where
  name := c.name
  parent := c.parent
  more := []
  members := c.properties.map PropertyDecl.member ++ c.methods.map MethodDecl.member
  more_plain := List.not_mem_nil

theorem inner_braced : c.braced.inner =
    10 :: (c.properties.flatMap PropertyDecl.source ++ c.methods.flatMap MethodDecl.source) := by
  simp [BracedClass.inner, braced, List.flatMap_map, PropertyDecl.source_member,
    MethodDecl.source_member]

theorem source_braced : c.braced.source = c.source := by
  rw [BracedClass.source, inner_braced]
  simp [source, BracedClass.clauses, braced, Bytes.ofString_openBrace, Bytes.ofString_closeBrace]

theorem values_property :
    property.values c.braced.block.body = c.properties.map PropertyDecl.info := by
  have hvalues := Form.values_body (g := fun _ => []) (property_ledBy.silent rfl (by decide))
    (property_ledBy.silent rfl (by decide) []) valuesFrom_property_source
    valuesFrom_property_method c.properties c.methods
  rw [BracedClass.block, inner_braced, hvalues]
  simp [List.map_eq_flatMap]

theorem values_method : method.values c.braced.block.body = c.methods.map MethodDecl.info := by
  have hvalues := Form.values_body (f := fun _ => []) (method_headLed.silent_gap rfl rfl)
    (method_headLed.silent_gap rfl rfl []) valuesFrom_method_property
    valuesFrom_method_source c.properties c.methods
  rw [BracedClass.block, inner_braced, hvalues]
  simp [List.map_eq_flatMap]

/-- The class that is read off the block of a declaration is the class declared. -/
theorem ofBlock_block : ofBlock c.braced.block = c.info := by
  have hfree : Bytes.ofString "extends" ∉ Bytes.words [] := List.not_mem_nil
  have hparent := Read.parent_header (by decide) c.name c.parent rfl hfree
  rw [ofBlock, values_property, values_method, BracedClass.block, BracedClass.clauses]
  simp only [braced, hparent, info]

end ClassDecl

theorem FunctionDecl.class_not_mem_words (f : FunctionDecl) :
    Bytes.ofString "class" ∉ Bytes.words f.source := by
  have hwords : Bytes.words f.source = Bytes.words f.head := by
    have hend : Bytes.words [Block.opening, 10, Block.closing, 10] = [] := by decide
    rw [f.source_eq, Bytes.words_append_sep rfl, hend, List.append_nil]
  rw [hwords]
  exact f.not_mem_words_head (by decide) (by decide)

theorem FunctionDecl.lastAfter_source (f : FunctionDecl) (prev : Option UInt8) :
    Bytes.lastAfter prev f.source = some 10 := by
  simp [f.source_eq]

/-- The class blocks that are found in a program are those of its classes. -/
theorem all_declaration (p : Program) :
    ClassBlock.all ClassBlock.declaration p.source =
      (p.classes.map ClassDecl.braced).map BracedClass.block := by
  have hclasses : p.classes.flatMap ClassDecl.source =
      (p.classes.map ClassDecl.braced).flatMap BracedClass.source := by
    simp [List.flatMap_map, ClassDecl.source_braced]
  have hshape : p.source = Bytes.ofString "<?php\n" ++
      ((p.classes.map ClassDecl.braced).flatMap BracedClass.source ++
        (p.functions.flatMap FunctionDecl.source ++ [])) := by
    simp [Program.source, hclasses]
  have htag : Bytes.lastAfter none (Bytes.ofString "<?php\n") = some 10 := rfl
  have hbehind : Bytes.lastAfter (some 10)
      ((p.classes.map ClassDecl.braced).flatMap BracedClass.source) = some 10 :=
    Bytes.lastAfter_flatMap (fun c => c.lastAfter_source _) _
  -- behind the last class no word declares another one
  have hfunctions : ClassBlock.blocksFrom (some 10)
      (p.functions.flatMap FunctionDecl.source ++ []) = [] := by
    have hlast : Bytes.lastAfter (some 10) (p.functions.flatMap FunctionDecl.source) = some 10 :=
      Bytes.lastAfter_flatMap (fun f => f.lastAfter_source _) _
    have hfree : Bytes.ofString "class" ∉
        Bytes.wordsFrom (some 10) (p.functions.flatMap FunctionDecl.source) := by
      have hends : ∀ f ∈ p.functions, Read.wordStart (Bytes.lastAfter none f.source) = true := by
        intro f _
        rw [f.lastAfter_source]
        rfl
      have hwords := Bytes.words_flatMap hends []
      rw [List.append_nil, Bytes.words_nil, List.append_nil] at hwords
      rw [Bytes.wordsFrom_eq_words rfl, hwords]
      simp only [List.mem_flatMap, not_exists, not_and]
      exact fun f _ => f.class_not_mem_words
    rw [ClassBlock.blocksFrom_silent (by rw [hlast]; rfl) hfree, ClassBlock.blocksFrom_nil]
  rw [ClassBlock.all_eq_blocksFrom, hshape, ClassBlock.blocksFrom_silent rfl (by decide), htag,
    BracedClass.blocksFrom_flatMap rfl, hbehind, hfunctions, List.append_nil]

/-- The outline of a program shows exactly its classes, with their members, and exactly its
functions, both in order, and an edge for each parent. -/
theorem outline_program (p : Program) :
    outline p.source = ⟨p.classes.map ClassDecl.info, p.functions.map FunctionDecl.info,
      (p.classes.map ClassDecl.info).flatMap ClassInfo.declaredEdges⟩ := by
  have hclasses : ((p.classes.map ClassDecl.braced).map BracedClass.block).map ofBlock =
      p.classes.map ClassDecl.info := by
    simp [ClassDecl.ofBlock_block]
  rw [outline, all_declaration, values_function, hclasses, Outline.ofParts_eq]

-- the source of a class and a function with the same head as its method
example :
    let name (s : String) (h : Bytes.ofString s ≠ [] ∧ (Bytes.ofString s).all Bytes.isWord ∧
        Bytes.ofString s ∉ reserved) : Name reserved :=
      ⟨Bytes.ofString s, h.1, List.all_eq_true.mp h.2.1, h.2.2⟩
    let bark : FunctionDecl := ⟨name "bark" (by decide), [name "n" (by decide),
      name "loud" (by decide)]⟩
    let dog : ClassDecl := ⟨name "Dog" (by decide), some (name "Animal" (by decide)),
      [⟨.prot, name "age" (by decide)⟩], [⟨bark, .pub⟩]⟩
    (Program.mk [dog] [bark]).source =
      Bytes.ofString ("<?php\n" ++ "class Dog extends Animal \x7b\n" ++
        "    protected $age;\n" ++ "    public function bark($n, $loud) \x7b\n    \x7d\n" ++
        "\x7d\n" ++ "function bark($n, $loud) \x7b\n\x7d\n") := by
  decide +kernel

end ClassOutline.Php
