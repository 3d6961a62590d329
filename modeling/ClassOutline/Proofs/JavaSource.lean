import ClassOutline.Proofs.BracedClass
import ClassOutline.Proofs.EdgeInvariant
import ClassOutline.Proofs.Text.OneLine

/-!
# Java source as it is usually written

Syntax trees for the part of Java that an outline shows (`Java.ClassDecl`), and their source text:
one line for the header of a class, one for each field and each method, and one for the closing
brace. Names and types carry the proof that they are lexically possible and that no reserved word
stands in them, so there is nothing to assume about a tree.

## Main results

- `valuesFrom_field_source`, `valuesFrom_field_method`: the search for fields takes every field and
  passes over every method
- `valuesFrom_method_source`, `valuesFrom_method_field`: the search for methods does the reverse
- `ofBlock_block`: the class that is read off the block of a tree is the class of that tree
- `outline_classes`: the outline of the source of any list of classes has exactly these classes
-/

namespace ClassOutline.Java

/-! ## Syntax trees -/

/-- The words with a meaning of their own in a declaration. -/
def reserved : List Bytes :=
  [Bytes.ofString "class", Bytes.ofString "extends", Bytes.ofString "implements",
    Bytes.ofString "public", Bytes.ofString "private", Bytes.ofString "protected",
    Bytes.ofString "static"]

/-- A type: a text of type bytes in which no word is reserved. -/
structure TypeName where
  text : Bytes
  ne_nil : text ≠ []
  isType : ∀ b ∈ text, isTypeByte b = true
  notReserved : ∀ w ∈ Bytes.words text, w ∉ reserved

structure FieldDecl where
  visibility : Visibility
  type : TypeName
  name : Name reserved

structure ParamDecl where
  type : TypeName
  name : Name reserved

structure MethodDecl where
  visibility : Visibility
  returns : TypeName
  name : Name reserved
  params : List ParamDecl

structure ClassDecl where
  name : Name reserved
  parent : Option (Name reserved)
  interfaces : List (Name reserved)
  fields : List FieldDecl
  methods : List MethodDecl

/-! ## Source text -/

/-- The line of a field. -/
def FieldDecl.source (f : FieldDecl) : Bytes :=
  [Bytes.ofString "    ", f.visibility.text, Bytes.ofString " ", f.type.text, Bytes.ofString " ",
    f.name.text, Bytes.ofString ";\n"].flatten

def ParamDecl.source (p : ParamDecl) : Bytes :=
  [p.type.text, Bytes.ofString " ", p.name.text].flatten

/-- The parameters of a method, as they stand between the parentheses. -/
def MethodDecl.paramText (m : MethodDecl) : Bytes :=
  Bytes.commaList (m.params.map ParamDecl.source)

/-- The line of a method. Its body is empty. -/
def MethodDecl.source (m : MethodDecl) : Bytes :=
  [Bytes.ofString "    ", m.visibility.text, Bytes.ofString " ", m.returns.text,
    Bytes.ofString " ", m.name.text, Bytes.ofString "(", m.paramText,
    Bytes.ofString ") \x7b \x7d\n"].flatten

/-- The clause that names the interfaces of a class, where there are any. -/
def implementsClause : List (Name reserved) → Bytes
  | [] => []
  | i :: is => Bytes.ofString " implements " ++ Bytes.commaList ((i :: is).map Name.text)

/-- The lines of a class. -/
def ClassDecl.source (c : ClassDecl) : Bytes :=
  [Bytes.ofString "class ", c.name.text, extendsClause c.parent, implementsClause c.interfaces,
    Bytes.ofString " \x7b\n", c.fields.flatMap FieldDecl.source,
    c.methods.flatMap MethodDecl.source, Bytes.ofString "\x7d\n"].flatten

/-! ## What an outline shows of them -/

def FieldDecl.info (f : FieldDecl) : Attribute :=
  ⟨f.name.text, f.type.text, f.visibility.text⟩

def MethodDecl.info (m : MethodDecl) : Method :=
  ⟨m.name.text, m.paramText, m.returns.text, m.visibility.text⟩

def ClassDecl.info (c : ClassDecl) : ClassInfo where
  name := c.name.text
  attributes := c.fields.map FieldDecl.info
  methods := c.methods.map MethodDecl.info
  parent := c.parent.map Name.text
  interfaces := c.interfaces.map Name.text

/-! ## Types -/

namespace TypeName

variable (t : TypeName)

theorem isSpace_of_isTypeByte {b : UInt8} (h : isTypeByte b = true) :
    Bytes.isSpace b = false := by
  simp only [isTypeByte, Bool.or_eq_true, beq_iff_eq] at h
  rcases h with (((h | rfl) | rfl) | rfl) | rfl
  · exact Bytes.isSpace_of_isWord h
  all_goals rfl

theorem isSolid_of_isTypeByte {b : UInt8} (h : isTypeByte b = true) :
    Bytes.isSolid b = true := by
  simp only [isTypeByte, Bool.or_eq_true, beq_iff_eq] at h
  rcases h with (((h | rfl) | rfl) | rfl) | rfl
  · exact Bytes.isSolid_of_isWord h
  all_goals rfl

theorem not_mem_text {c : UInt8} (hc : isTypeByte c = false) : c ∉ t.text := by
  intro hmem
  rw [t.isType c hmem] at hc
  cases hc

theorem head_isSpace (s : Bytes) : (t.text ++ s).head?.any Bytes.isSpace = false := by
  cases htext : t.text with
  | nil => exact absurd htext t.ne_nil
  | cons b u =>
    have hb : b ∈ t.text := by rw [htext]; exact List.mem_cons_self
    exact isSpace_of_isTypeByte (t.isType b hb)

theorem typeText_append (s : Bytes) :
    typeText (t.text ++ 0x20 :: s) = some (t.text, 0x20 :: s) :=
  Read.run1_append t.ne_nil t.isType rfl

/-- The keyword `static` is not read at the front of a type: either it is not there, or the type
goes on behind it. -/
theorem static_append {s u : Bytes} (h : Read.literal "static" (t.text ++ 0x20 :: s) = some u) :
    u.head?.any Bytes.isSpace = false := by
  have hsplit := Read.literal_eq_some h
  have hstatic : ∀ b ∈ Bytes.ofString "static", isTypeByte b = true := List.all_eq_true.mp rfl
  cases u with
  | nil => rfl
  | cons b u =>
    cases hb : Bytes.isSpace b with
    | false => exact hb
    | true =>
      -- the type ends with the keyword, so the keyword is all of it
      have htype : isTypeByte b = false := by
        cases htb : isTypeByte b with
        | false => rfl
        | true => rw [isSpace_of_isTypeByte htb] at hb; cases hb
      have hrun := congrArg (List.takeWhile isTypeByte) hsplit
      rw [Read.takeWhile_append_stop t.isType rfl,
        Read.takeWhile_append_stop hstatic (by simpa using htype)] at hrun
      have hword : Bytes.ofString "static" ∈ Bytes.words t.text := by
        rw [hrun]
        decide
      exact absurd (by decide) (t.notReserved _ hword)

end TypeName

/-! ## Reading one field -/

/-- Type, name and semicolon are the rest of a field. -/
theorem fieldTail_append (t : TypeName) (n : Name reserved) (s : Bytes) :
    fieldTail (t.text ++ 0x20 :: (n.text ++ 0x3B :: s)) = some ((t.text, n.text), s) := by
  have hsp := Read.spaces1_blank (n.head_isSpace (0x3B :: s))
  have hname := n.word_text (s := 0x3B :: s) rfl
  have hend : Read.memberEnd (Read.spaces (0x3B :: s)) = some s := rfl
  simp [fieldTail, t.typeText_append, hsp, hname, hend]

/-- Type, name and opening parenthesis are not. -/
theorem fieldTail_paren (t : TypeName) (n : Name reserved) (s : Bytes) :
    fieldTail (t.text ++ 0x20 :: (n.text ++ 0x28 :: s)) = none := by
  have hsp := Read.spaces1_blank (n.head_isSpace (0x28 :: s))
  have hname := n.word_text (s := 0x28 :: s) rfl
  have hend : Read.memberEnd (Read.spaces (0x28 :: s)) = none := rfl
  simp [fieldTail, t.typeText_append, hsp, hname, hend]

/-- A field is read where a word begins, and what is read behind its visibility decides. -/
theorem field_append {prev : Option UInt8} (hprev : Read.wordStart prev = true) (v : Visibility)
    (t : TypeName) (s : Bytes) :
    field prev (v.text ++ 0x20 :: (t.text ++ 0x20 :: s)) =
      (fieldTail (t.text ++ 0x20 :: s)).map fun r => (⟨r.1.2, r.1.1, v.text⟩, r.2) := by
  have hvis := Read.visibility_append v (0x20 :: (t.text ++ 0x20 :: s))
  have hsp := Read.spaces1_blank (t.head_isSpace (0x20 :: s))
  -- an optional keyword in front of the type is tried before the type itself
  cases hlit : Read.literal "static" (t.text ++ 0x20 :: s) with
  | none =>
    cases htail : fieldTail (t.text ++ 0x20 :: s) <;>
      simp [field, hprev, hvis, hsp, hlit, htail]
  | some u =>
    have hnone := Read.spaces1_eq_none (t.static_append hlit)
    cases htail : fieldTail (t.text ++ 0x20 :: s) <;>
      simp [field, hprev, hvis, hsp, hlit, hnone, htail]

theorem field_ledBy : field.LedBy Visibility.keywords := by
  intro prev s r h
  simp only [field, Option.bind_eq_bind, Option.bind_eq_some_iff, Option.guard_eq_some'] at h
  obtain ⟨-, hprev, ⟨w, t⟩, hvis, t', hsp, -⟩ := h
  exact ⟨hprev, Read.takeWhile_visibility hvis hsp⟩

/-! ## Reading one method -/

theorem methodTail_append (n : Name reserved) {u : Bytes} (hu : (0x29 : UInt8) ∉ u) (s : Bytes) :
    methodTail (0x20 :: (n.text ++ 0x28 :: (u ++ 0x29 :: 0x20 :: Block.opening :: s))) =
      some ((n.text, u), s) := by
  have hsp := Read.spaces1_blank
    (n.head_isSpace (0x28 :: (u ++ 0x29 :: 0x20 :: Block.opening :: s)))
  have hsig := Read.signature_append n.ne_nil n.isWord hu (0x20 :: Block.opening :: s)
  have hbrace : Read.byte Block.opening (Read.spaces (0x20 :: Block.opening :: s)) = some s := rfl
  simp [methodTail, hsp, hsig, hbrace]

/-- A method from its return type on. The keyword `static` is tried first, and is not there. -/
theorem methodBody_append (t : TypeName) (n : Name reserved) {u : Bytes}
    (hu : (0x29 : UInt8) ∉ u) (s : Bytes) :
    methodBody (0x20 :: (t.text ++
        0x20 :: (n.text ++ 0x28 :: (u ++ 0x29 :: 0x20 :: Block.opening :: s)))) =
      some ((t.text, n.text, u), s) := by
  have htail := methodTail_append n hu s
  generalize hrest : n.text ++ 0x28 :: (u ++ 0x29 :: 0x20 :: Block.opening :: s) = rest at htail ⊢
  have hsp : Read.spaces (0x20 :: (t.text ++ 0x20 :: rest)) = t.text ++ 0x20 :: rest :=
    Read.spaces_blank (t.head_isSpace (0x20 :: rest))
  have htyped : typedTail (t.text ++ 0x20 :: rest) = some ((t.text, n.text, u), s) := by
    simp [typedTail, t.typeText_append, htail]
  cases hlit : Read.literal "static" (t.text ++ 0x20 :: rest) with
  | none => simp [methodBody, hsp, hlit, htyped]
  | some v =>
    -- two of the four readings begin with the keyword, and both want space behind it
    have hhead := t.static_append hlit
    have hnone := Read.spaces1_eq_none hhead
    simp [methodBody, hsp, hlit, hhead, hnone, htyped, guard, failure]

theorem method_append {prev : Option UInt8} (hprev : Read.wordStart prev = true) (v : Visibility)
    (t : TypeName) (n : Name reserved) {u : Bytes} (hu : (0x29 : UInt8) ∉ u) (s : Bytes) :
    method prev (v.text ++ 0x20 :: (t.text ++
        0x20 :: (n.text ++ 0x28 :: (u ++ 0x29 :: 0x20 :: Block.opening :: s)))) =
      some (⟨n.text, u.collapse, t.text, v.text⟩, s) := by
  have hbody := methodBody_append t n hu s
  generalize 0x20 :: (t.text ++
    0x20 :: (n.text ++ 0x28 :: (u ++ 0x29 :: 0x20 :: Block.opening :: s))) = rest at hbody ⊢
  simp [method, Read.wordBoundary_visibility hprev, Read.visibility_append, hbody]

/-- What a method reads begins with its head, whichever of its optional parts are there. -/
theorem opens_of_methodTail {s : Bytes} {r : (Bytes × Bytes) × Bytes}
    (h : methodTail s = some r) : Read.Opens s := by
  simp only [methodTail, Option.bind_eq_bind, Option.bind_eq_some_iff] at h
  obtain ⟨t, hsp, ⟨head, t'⟩, hsig, -⟩ := h
  exact Read.Opens.of_spaces1 hsp (Read.opens_of_signature hsig)

theorem opens_of_typedTail {s : Bytes} {r : (Bytes × Bytes × Bytes) × Bytes}
    (h : typedTail s = some r) : Read.Opens s := by
  simp only [typedTail, Option.bind_eq_bind, Option.bind_eq_some_iff] at h
  obtain ⟨⟨type, t⟩, htype, ⟨head, t'⟩, htail, -⟩ := h
  obtain ⟨rfl, -, hall⟩ := Read.run1_eq_some htype
  exact (opens_of_methodTail htail).append fun b hb => Read.isHeadByte_of_isTypeByte (hall b hb)

theorem opens_of_untypedTail {s : Bytes} {r : (Bytes × Bytes × Bytes) × Bytes}
    (h : untypedTail s = some r) : Read.Opens s := by
  simp only [untypedTail, Option.bind_eq_bind, Option.bind_eq_some_iff] at h
  obtain ⟨⟨head, t⟩, htail, -⟩ := h
  exact opens_of_methodTail htail

theorem opens_of_methodBody {s : Bytes} {r : (Bytes × Bytes × Bytes) × Bytes}
    (h : methodBody s = some r) : Read.Opens s := by
  have hstatic : (Bytes.ofString "static").all Read.isHeadByte = true := rfl
  simp only [methodBody, Option.orElse_eq_orElse, Option.orElse_eq_or, Option.or_eq_some_iff,
    Option.bind_eq_bind, Option.bind_eq_some_iff, Option.guard_eq_some'] at h
  -- one case for each of the four readings
  rcases h with ⟨t, hlit, t', hsp, htail⟩ |
    ⟨-, ⟨t, hlit, -, hspace, htail⟩ | ⟨-, htail | ⟨-, htail⟩⟩⟩
  · exact Read.Opens.of_spaces (Read.Opens.of_literal hstatic hlit
      (Read.Opens.of_spaces1 hsp (opens_of_typedTail htail)))
  · refine Read.Opens.of_spaces (Read.Opens.of_literal hstatic hlit ?_)
    cases t with
    | nil => cases hspace
    | cons b t =>
      refine (opens_of_untypedTail htail).append (u := [b]) fun c hc => ?_
      rw [List.mem_singleton.mp hc]
      exact Read.isHeadByte_of_isSpace hspace
  · exact Read.Opens.of_spaces (opens_of_typedTail htail)
  · exact opens_of_untypedTail htail

theorem method_headLed : method.HeadLed where
  boundary := by
    intro prev s r h
    simp only [method, Option.bind_eq_bind, Option.bind_eq_some_iff, Option.guard_eq_some'] at h
    obtain ⟨-, hedge, -⟩ := h
    exact hedge
  opens := by
    intro prev s r h
    simp only [method, Option.orElse_eq_orElse, Option.orElse_eq_or, Option.or_eq_some_iff,
      Option.bind_eq_bind, Option.bind_eq_some_iff, Option.guard_eq_some'] at h
    obtain ⟨-, -, ⟨⟨w, t⟩, hvis, ⟨m, t'⟩, hbody, -⟩ | ⟨-, ⟨m, t'⟩, hbody, -⟩⟩ := h
    · exact Read.Opens.of_visibility hvis (opens_of_methodBody hbody)
    · exact opens_of_methodBody hbody

/-! ## Words and braces of a member -/

def FieldDecl.tail (f : FieldDecl) : Bytes :=
  f.type.text ++ 0x20 :: (f.name.text ++ 0x3B :: [10])

def MethodDecl.tail (m : MethodDecl) : Bytes :=
  m.returns.text ++ 0x20 :: (m.name.text ++ 0x28 :: (m.paramText ++
    0x29 :: 0x20 :: Block.opening :: [0x20, Block.closing, 10]))

theorem FieldDecl.source_eq (f : FieldDecl) :
    f.source = Bytes.ofString "    " ++ (f.visibility.text ++ 0x20 :: f.tail) := by
  simp [FieldDecl.source, FieldDecl.tail]

theorem MethodDecl.source_eq (m : MethodDecl) :
    m.source = Bytes.ofString "    " ++ (m.visibility.text ++ 0x20 :: m.tail) := by
  have hend : Bytes.ofString ") \x7b \x7d\n" =
      0x29 :: 0x20 :: Block.opening :: [0x20, Block.closing, 10] := rfl
  simp [MethodDecl.source, MethodDecl.tail, hend]

theorem ParamDecl.source_eq (p : ParamDecl) :
    p.source = p.type.text ++ 0x20 :: p.name.text := by
  simp [ParamDecl.source]

theorem ParamDecl.notReserved (p : ParamDecl) : ∀ w ∈ Bytes.words p.source, w ∉ reserved := by
  rw [p.source_eq, Bytes.words_append_sep rfl, p.name.words_text]
  intro w hw
  rcases List.mem_append.mp hw with hw | hw
  · exact p.type.notReserved w hw
  · rw [List.mem_singleton.mp hw]
    exact p.name.notReserved

theorem FieldDecl.notReserved (f : FieldDecl) : ∀ w ∈ Bytes.words f.tail, w ∉ reserved := by
  rw [FieldDecl.tail, Bytes.words_append_sep rfl, Bytes.words_append_sep rfl, f.name.words_text,
    Bytes.words_sep rfl]
  intro w hw
  simp only [List.mem_append, List.mem_singleton, Bytes.words_nil, List.not_mem_nil,
    or_false] at hw
  rcases hw with hw | rfl
  · exact f.type.notReserved w hw
  · exact f.name.notReserved

theorem MethodDecl.notReserved (m : MethodDecl) : ∀ w ∈ Bytes.words m.tail, w ∉ reserved := by
  have hend : Bytes.words (0x20 :: Block.opening :: [0x20, Block.closing, 10]) = [] := by decide
  rw [MethodDecl.tail, Bytes.words_append_sep rfl, Bytes.words_append_sep rfl,
    Bytes.words_append_sep rfl, m.name.words_text, hend, MethodDecl.paramText,
    Bytes.words_commaList]
  intro w hw
  simp only [List.mem_append, List.mem_singleton, List.mem_flatMap, List.mem_map,
    List.not_mem_nil, or_false] at hw
  rcases hw with hw | rfl | ⟨_, ⟨p, _, rfl⟩, hw⟩
  · exact m.returns.notReserved w hw
  · exact m.name.notReserved
  · exact p.notReserved w hw

theorem ParamDecl.oneLine (p : ParamDecl) : Bytes.OneLine p.source := by
  rw [p.source_eq]
  refine .cons p.type.ne_nil (fun b hb => ?_) (.piece p.name.ne_nil fun b hb => ?_)
  · exact TypeName.isSolid_of_isTypeByte (p.type.isType b hb)
  · exact Bytes.isSolid_of_isWord (p.name.isWord b hb)

/-- A byte that is neither a type byte nor in the separator is not in a parameter list. -/
theorem MethodDecl.not_mem_paramText (m : MethodDecl) {c : UInt8} (hc : isTypeByte c = false)
    (hsep : c ∉ Bytes.ofString ", ") : c ∉ m.paramText := by
  have hword : Bytes.isWord c = false := by
    simp only [isTypeByte, Bool.or_eq_false_iff] at hc
    exact hc.1.1.1.1
  apply Bytes.not_mem_commaList hsep
  intro x hx
  obtain ⟨p, -, rfl⟩ := List.mem_map.mp hx
  -- the blank between type and name is the one of the separator
  simp only [Bytes.ofString_comma, List.mem_cons, List.not_mem_nil, or_false, not_or] at hsep
  simp only [p.source_eq, List.mem_append, List.mem_cons, not_or]
  exact ⟨p.type.not_mem_text hc, hsep.2, p.name.not_mem_text hword⟩

theorem MethodDecl.collapse_paramText (m : MethodDecl) : m.paramText.collapse = m.paramText := by
  refine Bytes.collapse_commaList fun x hx => ?_
  obtain ⟨p, -, rfl⟩ := List.mem_map.mp hx
  exact p.oneLine

/-! ## Members -/

theorem TypeName.balanced_text (t : TypeName) : Balanced t.text :=
  .of_not_mem (t.not_mem_text rfl) (t.not_mem_text rfl)

theorem MethodDecl.balanced_paramText (m : MethodDecl) : Balanced m.paramText :=
  .of_not_mem (m.not_mem_paramText rfl (by decide)) (m.not_mem_paramText rfl (by decide))

def FieldDecl.member (f : FieldDecl) : Member where
  visibility := f.visibility
  tail := f.tail
  balanced := by
    have hname : Balanced (f.name.text ++ 0x3B :: [10]) :=
      (Balanced.of_name f.name).append (.of_all rfl)
    exact f.type.balanced_text.append (.plain rfl hname)
  endsLine := by simp [FieldDecl.tail]
  declaresNone := fun hmem => f.notReserved _ hmem (by decide)

/-- A method as a member of its class. Its own braces are the only ones. -/
def MethodDecl.member (m : MethodDecl) : Member where
  visibility := m.visibility
  tail := m.tail
  balanced := by
    have hblock : Balanced (Block.opening :: ([0x20] ++ Block.closing :: [10])) :=
      .nest (.of_all rfl) (.of_all rfl)
    have hend : Balanced (0x29 :: 0x20 :: Block.opening :: ([0x20] ++ Block.closing :: [10])) :=
      .plain rfl (.plain rfl hblock)
    have hparams := m.balanced_paramText.append hend
    have hsignature := (Balanced.of_name m.name).append (.plain (b := 0x28) rfl hparams)
    exact m.returns.balanced_text.append (.plain rfl hsignature)
  endsLine := by simp [MethodDecl.tail]
  declaresNone := fun hmem => m.notReserved _ hmem (by decide)

theorem FieldDecl.source_member (f : FieldDecl) : f.member.source = f.source := f.source_eq.symm

theorem MethodDecl.source_member (m : MethodDecl) : m.member.source = m.source := m.source_eq.symm

/-! ## Searching the members of a class -/

/-- The search for fields takes a field. -/
theorem valuesFrom_field_source (f : FieldDecl) (s : Bytes) :
    field.valuesFrom (some 10) (f.source ++ s) = [f.info] ++ field.valuesFrom (some 10) s := by
  have hshape : f.source ++ s = Bytes.ofString "    " ++ ((f.visibility.text ++
      0x20 :: (f.type.text ++ 0x20 :: (f.name.text ++ [0x3B]))) ++ ([10] ++ s)) := by
    simp [f.source_eq, FieldDecl.tail]
  rw [hshape]
  refine Form.valuesFrom_line ?indent ?ne ?hit ?gap ?last
  case indent => exact field_ledBy.silent rfl (by decide) _
  case ne => simp
  case hit =>
    have hread : field (some 0x20) _ = _ :=
      field_append rfl f.visibility f.type (f.name.text ++ 0x3B :: 10 :: s)
    rw [fieldTail_append] at hread
    simpa [FieldDecl.info] using hread
  case gap =>
    rw [show Bytes.lastAfter (some 10) _ = some 0x3B by simp]
    exact field_ledBy.silent rfl (by decide) _
  case last => simp

/-- It passes over a method: what stands where a field would have its semicolon is a parenthesis. -/
theorem valuesFrom_field_method (m : MethodDecl) (s : Bytes) :
    field.valuesFrom (some 10) (m.source ++ s) = field.valuesFrom (some 10) s := by
  rw [← m.source_member]
  apply field_ledBy.valuesFrom_member m.member
  case hmiss =>
    have hread : field (some 0x20) _ = _ :=
      field_append rfl m.visibility m.returns (m.name.text ++ 0x28 :: (m.paramText ++
        0x29 :: 0x20 :: Block.opening :: 0x20 :: Block.closing :: 10 :: s))
    rw [fieldTail_paren] at hread
    simpa [MethodDecl.member, MethodDecl.tail] using hread
  case hfree =>
    intro w hw hmem
    have hsub : ∀ k ∈ Visibility.keywords, k ∈ reserved := by decide
    exact m.notReserved w hw (hsub w hmem)

/-- The search for methods takes a method. -/
theorem valuesFrom_method_source (m : MethodDecl) (s : Bytes) :
    method.valuesFrom (some 10) (m.source ++ s) = [m.info] ++ method.valuesFrom (some 10) s := by
  have hshape : m.source ++ s = Bytes.ofString "    " ++ ((m.visibility.text ++
      0x20 :: (m.returns.text ++ 0x20 :: (m.name.text ++ 0x28 :: (m.paramText ++
        0x29 :: 0x20 :: [Block.opening])))) ++ ([0x20, Block.closing, 10] ++ s)) := by
    simp [m.source_eq, MethodDecl.tail]
  -- the parameter list is read up to the first closing parenthesis, so there must be none in it
  have hparams : (0x29 : UInt8) ∉ m.paramText :=
    m.not_mem_paramText rfl (by decide)
  rw [hshape]
  refine Form.valuesFrom_line ?indent ?ne ?hit ?gap ?last
  case indent => exact method_headLed.silent_gap rfl rfl _
  case ne => simp
  case hit =>
    have hread : method (some 0x20) _ = _ := method_append rfl m.visibility m.returns m.name hparams
      ([0x20, Block.closing, 10] ++ s)
    rw [m.collapse_paramText] at hread
    simpa [MethodDecl.info] using hread
  case gap =>
    rw [show Bytes.lastAfter (some 10) _ = some Block.opening by simp]
    exact method_headLed.silent_gap rfl rfl _
  case last => simp

/-- It passes over a field, which has a semicolon where a method would have its parenthesis. -/
theorem valuesFrom_method_field (f : FieldDecl) (s : Bytes) :
    method.valuesFrom (some 10) (f.source ++ s) = method.valuesFrom (some 10) s := by
  have hshape : f.source = Bytes.ofString "    " ++ ((f.visibility.text ++
      0x20 :: (f.type.text ++ 0x20 :: f.name.text) ++ [0x3B]) ++ [10]) := by
    simp [f.source_eq, FieldDecl.tail]
  -- everything up to the semicolon could belong to the head of a method
  have hhead : ∀ b ∈ f.visibility.text ++ 0x20 :: (f.type.text ++ 0x20 :: f.name.text),
      Read.isHeadByte b = true := by
    intro b hb
    simp only [List.mem_append, List.mem_cons] at hb
    rcases hb with hb | rfl | hb | rfl | hb
    · exact Read.isHeadByte_of_isWord (f.visibility.isWord_text b hb)
    · rfl
    · exact Read.isHeadByte_of_isTypeByte (f.type.isType b hb)
    · rfl
    · exact Read.isHeadByte_of_isWord (f.name.isWord b hb)
  have hsilent : method.Silent (some 10) f.source s := by
    rw [hshape]
    refine Form.Silent.append (method_headLed.silent_gap rfl rfl _) ?_
    refine Form.Silent.append (method_headLed.silent_until hhead rfl (by decide) _ _) ?_
    rw [Bytes.lastAfter_append]
    exact method_headLed.silent_gap rfl rfl _
  rw [Form.valuesFrom_silent hsilent]
  simp [hshape]

/-! ## The clause of the interfaces -/

/-- What stands in a header between the blank behind the parent and the brace. -/
def interfaceText : List (Name reserved) → Bytes
  | [] => []
  | i :: is => Bytes.ofString "implements " ++ (Bytes.commaList ((i :: is).map Name.text) ++ [0x20])

theorem implementsClause_append (interfaces : List (Name reserved)) (s : Bytes) :
    implementsClause interfaces ++ 0x20 :: s = 0x20 :: (interfaceText interfaces ++ s) := by
  have hkey : Bytes.ofString " implements " = 0x20 :: Bytes.ofString "implements " := rfl
  cases interfaces with
  | nil => rfl
  | cons i is => simp [implementsClause, interfaceText, hkey]

theorem opening_not_mem_interfaceText (interfaces : List (Name reserved)) :
    Block.opening ∉ interfaceText interfaces := by
  cases interfaces with
  | nil => exact List.not_mem_nil
  | cons i is =>
    simp only [interfaceText, List.mem_append, not_or]
    exact ⟨by decide, Name.not_mem_commaList (i :: is) rfl (by decide), by decide⟩

theorem extends_not_mem_interfaceText (interfaces : List (Name reserved)) :
    Bytes.ofString "extends" ∉ Bytes.words (interfaceText interfaces) := by
  cases interfaces with
  | nil => exact List.not_mem_nil
  | cons i is =>
    have hkey : Bytes.words (Bytes.ofString "implements ") = [Bytes.ofString "implements"] := by
      decide
    rw [interfaceText, Bytes.words_append rfl, hkey, Bytes.words_append_sep rfl,
      Bytes.words_commaList]
    simp only [List.mem_append, List.mem_singleton, List.mem_flatMap, List.mem_map, not_or,
      Bytes.words_nil, List.not_mem_nil, not_false_eq_true, and_true]
    refine ⟨by decide, ?_⟩
    rintro ⟨_, ⟨n, -, rfl⟩, hmem⟩
    rw [n.words_text, List.mem_singleton] at hmem
    exact n.notReserved (hmem ▸ by decide)

theorem interfacesForm_ledBy : interfacesForm.LedBy [Bytes.ofString "implements"] := by
  apply Form.LedBy.of_keyword rfl (by decide)
  intro prev s r h
  simp only [interfacesForm, Option.bind_eq_bind, Option.bind_eq_some_iff,
    Option.guard_eq_some'] at h
  obtain ⟨-, hprev, t, hlit, t', hsp, -⟩ := h
  exact ⟨hprev, t, t', hlit, hsp⟩

/-- Everything behind the keyword is read. -/
theorem interfacesForm_append {prev : Option UInt8} (hprev : Read.wordStart prev = true)
    (i : Name reserved) (is : List (Name reserved)) :
    interfacesForm prev (interfaceText (i :: is)) =
      some (Bytes.commaList ((i :: is).map Name.text) ++ [0x20], []) := by
  have hplain : Block.opening ∉ Bytes.commaList ((i :: is).map Name.text) ++ [0x20] := by
    rw [List.mem_append, not_or]
    exact ⟨Name.not_mem_commaList (i :: is) rfl (by decide), by decide⟩
  have hstart : (Bytes.commaList ((i :: is).map Name.text) ++ [0x20]).head?.any
      Bytes.isSpace = false := by
    cases is with
    | nil => exact i.head_isSpace [0x20]
    | cons j is =>
      simp only [List.map_cons, Bytes.commaList_cons_cons, List.append_assoc]
      exact i.head_isSpace _
  rw [interfaceText]
  -- the header ends where the brace would stand, so everything is taken
  generalize Bytes.commaList ((i :: is).map Name.text) ++ [0x20] = names at hplain hstart ⊢
  have hlit : Read.literal "implements" (Bytes.ofString "implements " ++ names) =
      some (0x20 :: names) := rfl
  have hall := Read.bne_of_not_mem hplain
  have htake := Read.takeWhile_append_stop (s := []) hall rfl
  have hdrop := Read.dropWhile_append_stop (s := []) hall rfl
  rw [List.append_nil] at htake hdrop
  simp [interfacesForm, hprev, hlit, Read.spaces1_blank hstart, htake, hdrop]

/-- The interfaces that are read off a header are those of its clause. -/
theorem interfaces_header (n : Name reserved) (superclass : Option (Name reserved))
    (interfaces : List (Name reserved)) :
    ((interfacesForm.first? (Bytes.ofString "class " ++ (n.text ++ (extendsClause superclass ++
      0x20 :: interfaceText interfaces)))).map fun o => o.value.listItems).getD [] =
      interfaces.map Name.text := by
  have hname : ∀ m : Name reserved, m.text ≠ Bytes.ofString "implements" := by
    intro m h
    exact m.notReserved (h ▸ by decide)
  -- the keyword is not among the words in front of the clause
  have hsilent : ∀ s, interfacesForm.Silent none (Bytes.ofString "class " ++ (n.text ++
      (extendsClause superclass ++ [0x20]))) s := by
    refine interfacesForm_ledBy.silent (by simp [Read.wordStart]; rfl) ?_
    rw [← Bytes.words, words_header]
    have hclass : Bytes.ofString "class" ≠ Bytes.ofString "implements" := by decide
    have hextends : Bytes.ofString "extends" ≠ Bytes.ofString "implements" := by decide
    cases superclass <;> simp [hname, hclass, hextends]
  cases interfaces with
  | nil =>
    rw [interfaceText, Form.first?_eq_none (hsilent [])]
    rfl
  | cons i is =>
    have hshape : Bytes.ofString "class " ++ (n.text ++ (extendsClause superclass ++
        0x20 :: interfaceText (i :: is))) =
        (Bytes.ofString "class " ++ (n.text ++ (extendsClause superclass ++ [0x20]))) ++
          interfaceText (i :: is) := by
      simp
    have hlast : Bytes.lastAfter none (Bytes.ofString "class " ++ (n.text ++
        (extendsClause superclass ++ [0x20]))) = some 0x20 := by simp
    have hread : interfacesForm (some 0x20) _ = _ := interfacesForm_append rfl i is
    rw [← hlast] at hread
    have hne : interfaceText (i :: is) ≠ [] :=
      List.append_ne_nil_of_left_ne_nil (by decide) _
    rw [hshape, Form.first?_eq_some hne (hsilent _) hread]
    exact Name.listItems_commaList (List.cons_ne_nil i is) (by simp)

/-! ## The outline -/

namespace ClassDecl

variable (c : ClassDecl)

def braced : BracedClass reserved where
  name := c.name
  parent := c.parent
  more := interfaceText c.interfaces
  members := c.fields.map FieldDecl.member ++ c.methods.map MethodDecl.member
  more_plain := opening_not_mem_interfaceText c.interfaces

theorem inner_braced : c.braced.inner =
    10 :: (c.fields.flatMap FieldDecl.source ++ c.methods.flatMap MethodDecl.source) := by
  simp [BracedClass.inner, braced, List.flatMap_map, FieldDecl.source_member,
    MethodDecl.source_member]

theorem source_braced : c.braced.source = c.source := by
  rw [BracedClass.source, inner_braced]
  simp [source, BracedClass.clauses, braced, Bytes.ofString_openBrace, Bytes.ofString_closeBrace,
    implementsClause_append]

theorem values_field : field.values c.braced.block.body = c.fields.map FieldDecl.info := by
  have hvalues := Form.values_body (g := fun _ => []) (field_ledBy.silent rfl (by decide))
    (field_ledBy.silent rfl (by decide) []) valuesFrom_field_source valuesFrom_field_method
    c.fields c.methods
  rw [BracedClass.block, inner_braced, hvalues]
  simp [List.map_eq_flatMap]

theorem values_method : method.values c.braced.block.body = c.methods.map MethodDecl.info := by
  have hvalues := Form.values_body (f := fun _ => []) (method_headLed.silent_gap rfl rfl)
    (method_headLed.silent_gap rfl rfl []) valuesFrom_method_field valuesFrom_method_source
    c.fields c.methods
  rw [BracedClass.block, inner_braced, hvalues]
  simp [List.map_eq_flatMap]

/-- The class that is read off the block of a declaration is the class declared. -/
theorem ofBlock_block : ofBlock c.braced.block = c.info := by
  have hlast : Read.wordStart
      (Bytes.lastAfter (some 0x20) (interfaceText c.interfaces)) = true := by
    cases c.interfaces with
    | nil => rfl
    | cons i is =>
      simp only [interfaceText, Bytes.lastAfter_append]
      rfl
  have hparent := Read.parent_header (by decide) c.name c.parent hlast
    (extends_not_mem_interfaceText c.interfaces)
  have hinterfaces := interfaces_header c.name c.parent c.interfaces
  rw [ofBlock, values_field, values_method, BracedClass.block, BracedClass.clauses]
  simp only [braced, hparent, hinterfaces, info]

end ClassDecl

/-- The outline of the source of some classes shows exactly these classes, with their members, in
order, and an edge for each clause. -/
theorem outline_classes (classes : List ClassDecl) :
    outline (classes.flatMap ClassDecl.source) =
      ⟨classes.map ClassDecl.info, [], (classes.map ClassDecl.info).flatMap
        ClassInfo.declaredEdges⟩ := by
  have hsource : classes.flatMap ClassDecl.source =
      (classes.map ClassDecl.braced).flatMap BracedClass.source := by
    simp [List.flatMap_map, ClassDecl.source_braced]
  have hblocks : ClassBlock.all ClassBlock.declaration (classes.flatMap ClassDecl.source) =
      (classes.map ClassDecl.braced).map BracedClass.block := by
    have hall : ClassBlock.blocksFrom none _ = _ :=
      BracedClass.blocksFrom_flatMap rfl (classes.map ClassDecl.braced) []
    rw [List.append_nil, ClassBlock.blocksFrom_nil, List.append_nil, ← hsource] at hall
    rw [ClassBlock.all_eq_blocksFrom, hall]
  have hclasses : ((classes.map ClassDecl.braced).map BracedClass.block).map ofBlock =
      classes.map ClassDecl.info := by
    simp [ClassDecl.ofBlock_block]
  rw [outline, hblocks, hclasses, Outline.ofParts_eq]

-- the source of a class with one member of each kind
example :
    let name (s : String) (h : Bytes.ofString s ≠ [] ∧ (Bytes.ofString s).all Bytes.isWord ∧
        Bytes.ofString s ∉ reserved) : Name reserved :=
      ⟨Bytes.ofString s, h.1, List.all_eq_true.mp h.2.1, h.2.2⟩
    let type : TypeName :=
      ⟨Bytes.ofString "List<Tag>", by decide, List.all_eq_true.mp rfl, by decide⟩
    let dog : ClassDecl :=
      { name := name "Dog" (by decide)
        parent := some (name "Animal" (by decide))
        interfaces := [name "Pet" (by decide)]
        fields := [⟨.priv, type, name "tags" (by decide)⟩]
        methods := [⟨.pub, type, name "add" (by decide), [⟨type, name "more" (by decide)⟩]⟩] }
    dog.source = Bytes.ofString ("class Dog extends Animal implements Pet \x7b\n" ++
      "    private List<Tag> tags;\n" ++
      "    public List<Tag> add(List<Tag> more) \x7b \x7d\n" ++ "\x7d\n") := by
  decide +kernel

end ClassOutline.Java
