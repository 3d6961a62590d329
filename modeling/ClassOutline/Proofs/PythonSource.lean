import ClassOutline.Extract.Python
import ClassOutline.Proofs.EdgeInvariant
import ClassOutline.Proofs.Text.OneLine

/-!
# Python source as it is usually written

Syntax trees for the part of Python that an outline shows, and their source text: classes with
methods and assigned attributes, and functions, in any order.

Every statement is one line, and every form that an outline is made with is read at the start of
lines only. So the argument has two layers. The first is about lines: what each form reads in one
line (`methodOf`, `attributeOf`, `functionOf`), and that a class takes the lines up to the next
class (`classesOf`). The second is about trees, whose lines are known.

## Main results

- `valuesFrom_method_line`, `valuesFrom_attribute_line`, `valuesFrom_function_line`: a search takes
  from each line what that line declares
- `body_lines`: the body of a class is made of the lines up to the next class
- `map_classAt_lines`: the classes that are read in some lines are `classesOf` these lines
- `outline_items`: the outline of the source of any items has exactly their classes and functions
-/

namespace ClassOutline.Python

/-! ## Syntax trees -/

/-- A name. No word is reserved: what a word means is decided by where it stands in its line. -/
abbrev Identifier := Name []

structure FunctionDecl where
  name : Identifier
  params : List Identifier

/-- A statement in the body of a class. -/
inductive BodyItem where
  | method (f : FunctionDecl)
  | assign (name : Identifier)

structure ClassDecl where
  name : Identifier
  bases : List Identifier
  body : List BodyItem

/-- A statement outside of classes. -/
inductive Item where
  | classDecl (c : ClassDecl)
  | function (f : FunctionDecl)

/-! ## Source text -/

/-- A line of source. -/
inductive Line where
  | header (name : Identifier) (bases : List Identifier)
  | method (f : FunctionDecl)
  | methodBody
  | assign (name : Identifier)
  | function (f : FunctionDecl)
  | functionBody

/-- The bases of a class in parentheses, where there are any. -/
def baseList : List Identifier → Bytes
  | [] => []
  | b :: bs => [Bytes.ofString "(", Bytes.commaList ((b :: bs).map Name.text),
      Bytes.ofString ")"].flatten

/-- The parameters of a function, as they stand between the parentheses. -/
def FunctionDecl.paramText (f : FunctionDecl) : Bytes := Bytes.commaList (f.params.map Name.text)

def FunctionDecl.head (f : FunctionDecl) : Bytes :=
  [Bytes.ofString "def ", f.name.text, Bytes.ofString "(", f.paramText,
    Bytes.ofString "):"].flatten

/-- The text of a line, without its newline. -/
def Line.text : Line → Bytes
  | header n bases => [Bytes.ofString "class ", n.text, baseList bases, Bytes.ofString ":"].flatten
  | method f => Bytes.ofString "    " ++ f.head
  | methodBody => Bytes.ofString "        pass"
  | assign n => [Bytes.ofString "        self.", n.text, Bytes.ofString " = 0"].flatten
  | function f => f.head
  | functionBody => Bytes.ofString "    pass"

/-- A line with its newline. -/
def Line.source (l : Line) : Bytes := l.text ++ [10]

/-- The lines of a statement in the body of a class. -/
def BodyItem.lines : BodyItem → List Line
  | method f => [.method f, .methodBody]
  | assign n => [.assign n]

/-- The lines of a statement outside of classes. -/
def Item.lines : Item → List Line
  | classDecl c => .header c.name c.bases :: c.body.flatMap BodyItem.lines
  | function f => [.function f, .functionBody]

/-- The source text of a statement. -/
def Item.source (i : Item) : Bytes := i.lines.flatMap Line.source

/-! ## What an outline shows of them -/

/-- The method of a method declaration. All methods are public. -/
def FunctionDecl.methodInfo (f : FunctionDecl) : Method :=
  ⟨f.name.text, f.paramText, [], Bytes.ofString "public"⟩

def FunctionDecl.info (f : FunctionDecl) : FunctionInfo := ⟨f.name.text, f.paramText, []⟩

def BodyItem.methods : BodyItem → List Method
  | method f => [f.methodInfo]
  | assign _ => []

def BodyItem.attributes : BodyItem → List Attribute
  | method _ => []
  | assign n => [⟨n.text, [], Bytes.ofString "public"⟩]

def ClassDecl.info (c : ClassDecl) : ClassInfo where
  name := c.name.text
  attributes := c.body.flatMap BodyItem.attributes
  methods := c.body.flatMap BodyItem.methods
  parent := c.bases.head?.map Name.text
  interfaces := c.bases.tail.map Name.text

/-- The class that a statement declares, if it is one. -/
def Item.classInfo? : Item → Option ClassInfo
  | classDecl c => some c.info
  | function _ => none

/-- The function that a statement declares, if it is one. -/
def Item.functionInfo? : Item → Option FunctionInfo
  | classDecl _ => none
  | function f => some f.info

/-! ## Reading one line -/

theorem FunctionDecl.head_append (f : FunctionDecl) (s : Bytes) : f.head ++ s =
    Bytes.ofString "def " ++ (f.name.text ++ 0x28 :: (f.paramText ++ 0x29 :: 0x3A :: s)) := by
  have hclose : Bytes.ofString "):" = [0x29, 0x3A] := rfl
  simp [FunctionDecl.head, hclose]

theorem functionHead_append (f : FunctionDecl) (s : Bytes) :
    functionHead (f.head ++ s) = some ((f.name.text, f.paramText), s) := by
  have hparams : (0x29 : UInt8) ∉ f.paramText :=
    Name.not_mem_commaList f.params rfl (by decide)
  have hsig := Read.signature_append f.name.ne_nil f.name.isWord hparams (0x3A :: s)
  have hstart := f.name.head_isSpace (0x28 :: (f.paramText ++ 0x29 :: 0x3A :: s))
  rw [f.head_append]
  generalize f.name.text ++ 0x28 :: (f.paramText ++ 0x29 :: 0x3A :: s) = rest at hsig hstart ⊢
  have hlit : Read.literal "def" (Bytes.ofString "def " ++ rest) = some (0x20 :: rest) := rfl
  have hcolon : Read.byte 0x3A (Read.spaces (0x3A :: s)) = some s := rfl
  simp [functionHead, hlit, Read.spaces1_blank hstart, hsig, hcolon]

theorem FunctionDecl.collapse_paramText (f : FunctionDecl) :
    f.paramText.collapse = f.paramText := by
  refine Bytes.collapse_commaList fun x hx => ?_
  obtain ⟨n, -, rfl⟩ := List.mem_map.mp hx
  exact n.oneLine_text

theorem function_append (f : FunctionDecl) (s : Bytes) :
    function (some 10) (f.head ++ s) = some (f.info, s) := by
  have hstart : Read.lineStart (some 10) = true := rfl
  simp [function, hstart, functionHead_append, f.collapse_paramText, FunctionDecl.info]

theorem method_append (f : FunctionDecl) (s : Bytes) :
    method (some 10) (Bytes.ofString "    " ++ (f.head ++ s)) = some (f.methodInfo, s) := by
  have hstart : Read.lineStart (some 10) = true := rfl
  have hindent : indentation (Bytes.ofString "    " ++ (f.head ++ s)) = some (f.head ++ s) := by
    rw [f.head_append]
    rfl
  simp [method, hstart, hindent, functionHead_append, f.collapse_paramText,
    FunctionDecl.methodInfo]
  rfl

theorem selfAttribute_append (n : Identifier) (s : Bytes) :
    selfAttribute (some 10) ((Line.assign n).text ++ 10 :: s) =
      some (⟨n.text, [], Bytes.ofString "public"⟩, 10 :: s) := by
  have hshape : (Line.assign n).text ++ 10 :: s = Bytes.ofString "        self." ++
      (n.text ++ (Bytes.ofString " = 0" ++ 10 :: s)) := by
    simp [Line.text]
  have hstart : Read.lineStart (some 10) = true := rfl
  have hname := n.word_text (s := Bytes.ofString " = 0" ++ 10 :: s) rfl
  rw [hshape]
  generalize n.text ++ (Bytes.ofString " = 0" ++ 10 :: s) = rest at hname ⊢
  have hindent : indentation (Bytes.ofString "        self." ++ rest) =
      some (Bytes.ofString "self." ++ rest) := rfl
  have hlit : Read.literal "self." (Bytes.ofString "self." ++ rest) = some rest := rfl
  have hequals : Read.byte 0x3D (Read.spaces (Bytes.ofString " = 0" ++ 10 :: s)) =
      some (0x20 :: 0x30 :: 10 :: s) := rfl
  have hvalue : assigned (0x20 :: 0x30 :: 10 :: s) = some (10 :: s) := rfl
  simp [selfAttribute, hstart, hindent, hlit, hname, hequals, hvalue]
  rfl

/-- A line is indented by some blanks, and something stands behind them. -/
theorem Line.text_split (l : Line) : ∃ (depth : Nat) (c : UInt8) (t : Bytes),
    l.text = List.replicate depth 0x20 ++ c :: t ∧ Bytes.isSpace c = false := by
  cases l with
  | header n bases => exact ⟨0, 0x63, _, rfl, rfl⟩
  | method f => exact ⟨4, 0x64, _, rfl, rfl⟩
  | methodBody => exact ⟨8, 0x70, _, rfl, rfl⟩
  | assign n => exact ⟨8, 0x73, _, rfl, rfl⟩
  | function f => exact ⟨0, 0x64, _, rfl, rfl⟩
  | functionBody => exact ⟨4, 0x70, _, rfl, rfl⟩

/-- The text from the end of a line on, when some lines follow. -/
def behind : List Line → Bytes
  | [] => []
  | l :: ls => 10 :: (l :: ls).flatMap Line.source

/-- The end of a line is found where it is: the line that follows has something on it. -/
theorem lineEnd_lines (lines : List Line) :
    lineEnd (10 :: lines.flatMap Line.source) = some (behind lines) := by
  cases lines with
  | nil => rfl
  | cons l ls =>
    obtain ⟨depth, c, t, htext, hc⟩ := l.text_split
    have hindent : ∀ b ∈ List.replicate depth (0x20 : UInt8), b = 0x20 :=
      fun b hb => List.eq_of_mem_replicate hb
    generalize List.replicate depth (0x20 : UInt8) = indent at htext hindent
    have hshape : 10 :: (l :: ls).flatMap Line.source =
        (10 :: indent) ++ c :: (t ++ 10 :: ls.flatMap Line.source) := by
      simp [Line.source, htext]
    have hrun : ∀ b ∈ (10 :: indent : Bytes), Bytes.isSpace b = true := by
      intro b hb
      rcases List.mem_cons.mp hb with rfl | hb
      · rfl
      · rw [hindent b hb]
        rfl
    -- of the separating bytes, those behind the newline are the indentation
    have hlast : ((10 :: indent : Bytes).reverse.takeWhile (· != newline)).reverse = indent := by
      have hblank : ∀ b ∈ indent.reverse, (b != newline) = true := by
        intro b hb
        rw [hindent b (List.mem_reverse.mp hb)]
        rfl
      rw [List.reverse_cons, Read.takeWhile_append_stop hblank rfl, List.reverse_reverse]
    have hnewline : (10 :: indent : Bytes).contains newline = true := rfl
    have hstop : (c :: (t ++ 10 :: ls.flatMap Line.source)).head?.any Bytes.isSpace = false := hc
    rw [behind, hshape, lineEnd, Read.takeWhile_append_stop hrun hstop,
      Read.dropWhile_append_stop hrun hstop]
    simp only [hnewline, hlast, if_true]
    rfl

/-- The header of a class is read up to the end of its line. -/
theorem classHeader_append (n : Identifier) (bases : List Identifier) (lines : List Line) :
    classHeader (some 10) ((Line.header n bases).text ++ 10 :: lines.flatMap Line.source) =
      some ((n.text, Bytes.commaList (bases.map Name.text)), behind lines) := by
  have hstart : Read.lineStart (some 10) = true := rfl
  have hend := lineEnd_lines lines
  generalize lines.flatMap Line.source = s at hend ⊢
  have hcolon : Bytes.ofString ":" = [0x3A] := rfl
  have hshape : (Line.header n bases).text ++ 10 :: s =
      Bytes.ofString "class " ++ (n.text ++ (baseList bases ++ 0x3A :: 10 :: s)) := by
    simp [Line.text, hcolon]
  have hname : Read.word (n.text ++ (baseList bases ++ 0x3A :: 10 :: s)) =
      some (n.text, baseList bases ++ 0x3A :: 10 :: s) := by
    refine n.word_text ?_
    cases bases <;> rfl
  have hsp := Read.spaces1_blank (n.head_isSpace (baseList bases ++ 0x3A :: 10 :: s))
  -- without bases the colon follows the name at once
  have hbases : (Read.parenthesized (Read.spaces (baseList bases ++ 0x3A :: 10 :: s))).getD
      ([], Read.spaces (baseList bases ++ 0x3A :: 10 :: s)) =
      (Bytes.commaList (bases.map Name.text), 0x3A :: 10 :: s) := by
    cases bases with
    | nil => rfl
    | cons b bs =>
      have hclose : (0x29 : UInt8) ∉ Bytes.commaList ((b :: bs).map Name.text) :=
        Name.not_mem_commaList (b :: bs) rfl (by decide)
      have hlist : baseList (b :: bs) ++ 0x3A :: 10 :: s =
          0x28 :: (Bytes.commaList ((b :: bs).map Name.text) ++ 0x29 :: 0x3A :: 10 :: s) := by
        simp [baseList]
      rw [hlist, Read.spaces_eq_self rfl, Read.parenthesized_append hclose]
      rfl
  rw [hshape]
  generalize baseList bases ++ 0x3A :: 10 :: s = rest at hname hsp hbases ⊢
  have hlit : Read.literal "class" (Bytes.ofString "class " ++ (n.text ++ rest)) =
      some (0x20 :: (n.text ++ rest)) := rfl
  have hbyte : Read.byte 0x3A (0x3A :: 10 :: s) = some (10 :: s) := rfl
  simp [classHeader, hstart, hlit, hsp, hname, hbases, hbyte, hend]

/-! ## Searching lines -/

/-- What a line declares as a method. -/
def methodOf : Line → List Method
  | .method f => [f.methodInfo]
  | _ => []

def attributeOf : Line → List Attribute
  | .assign n => [⟨n.text, [], Bytes.ofString "public"⟩]
  | _ => []

def functionOf : Line → List FunctionInfo
  | .function f => [f.info]
  | _ => []

theorem FunctionDecl.newline_not_mem_head (f : FunctionDecl) : (10 : UInt8) ∉ f.head := by
  have hparams : (10 : UInt8) ∉ f.paramText :=
    Name.not_mem_commaList f.params rfl (by decide)
  have hname : (10 : UInt8) ∉ f.name.text := f.name.not_mem_text rfl
  simp only [FunctionDecl.head, List.flatten_cons, List.flatten_nil, List.append_nil,
    List.mem_append, not_or]
  exact ⟨by decide, hname, by decide, hparams, by decide⟩

theorem Line.newline_not_mem_text (l : Line) : (10 : UInt8) ∉ l.text := by
  have hname : ∀ n : Identifier, (10 : UInt8) ∉ n.text := fun n => n.not_mem_text rfl
  cases l with
  | header n bases =>
    have hbases : (10 : UInt8) ∉ baseList bases := by
      cases bases with
      | nil => exact List.not_mem_nil
      | cons b bs =>
        simp only [baseList, List.flatten_cons, List.flatten_nil, List.append_nil,
          List.mem_append, not_or]
        exact ⟨by decide, Name.not_mem_commaList (b :: bs) rfl (by decide),
          by decide⟩
    simp only [text, List.flatten_cons, List.flatten_nil, List.append_nil, List.mem_append, not_or]
    exact ⟨by decide, hname n, hbases, by decide⟩
  | method f =>
    rw [text, List.mem_append, not_or]
    exact ⟨by decide, f.newline_not_mem_head⟩
  | methodBody => decide
  | assign n =>
    simp only [text, List.flatten_cons, List.flatten_nil, List.append_nil, List.mem_append, not_or]
    exact ⟨by decide, hname n, by decide⟩
  | function f => exact f.newline_not_mem_head
  | functionBody => decide

theorem Line.text_ne_nil (l : Line) : l.text ≠ [] := by
  obtain ⟨depth, c, t, htext, -⟩ := l.text_split
  rw [htext]
  simp

theorem Line.lastAfter_source (l : Line) (prev : Option UInt8) :
    Bytes.lastAfter prev l.source = some 10 := by
  simp [source]

theorem Line.source_append (l : Line) (s : Bytes) : l.source ++ s = l.text ++ 10 :: s := by
  simp [source]

theorem valuesFrom_line_miss {α : Type} {form : Form α} (hled : form.LineLed) {l : Line} {s : Bytes}
    (hmiss : form (some 10) (l.text ++ 10 :: s) = none) :
    form.valuesFrom (some 10) (l.source ++ s) = [] ++ form.valuesFrom (some 10) s := by
  rw [l.source_append, hled.valuesFrom_miss l.newline_not_mem_text hmiss, List.nil_append]

theorem valuesFrom_line_hit {α : Type} {form : Form α} (hled : form.LineLed) {l : Line} {s : Bytes}
    {value : α} (hit : form (some 10) (l.text ++ 10 :: s) = some (value, 10 :: s)) :
    form.valuesFrom (some 10) (l.source ++ s) = [value] ++ form.valuesFrom (some 10) s := by
  rw [l.source_append]
  exact hled.valuesFrom_hit l.text_ne_nil l.newline_not_mem_text List.not_mem_nil hit

theorem method_lineLed : method.LineLed := by
  intro prev s hprev
  simp [method, hprev, guard, failure]

theorem selfAttribute_lineLed : selfAttribute.LineLed := by
  intro prev s hprev
  simp [selfAttribute, hprev, guard, failure]

theorem function_lineLed : function.LineLed := by
  intro prev s hprev
  simp [function, hprev, guard, failure]

theorem classStart_lineLed : classStart.LineLed := by
  intro prev s hprev
  simp [classStart, hprev, guard, failure]

theorem classHeader_lineLed : classHeader.LineLed := by
  intro prev s hprev
  simp [classHeader, hprev, guard, failure]

/-- The search for methods takes the methods among lines. -/
theorem valuesFrom_method_line (l : Line) (s : Bytes) :
    method.valuesFrom (some 10) (l.source ++ s) =
      methodOf l ++ method.valuesFrom (some 10) s := by
  cases l with
  | method f =>
    refine valuesFrom_line_hit method_lineLed ?_
    rw [Line.text, List.append_assoc]
    exact method_append f (10 :: s)
  | header n bases => exact valuesFrom_line_miss method_lineLed rfl
  | methodBody => exact valuesFrom_line_miss method_lineLed rfl
  | assign n => exact valuesFrom_line_miss method_lineLed rfl
  | function f => exact valuesFrom_line_miss method_lineLed rfl
  | functionBody => exact valuesFrom_line_miss method_lineLed rfl

theorem valuesFrom_attribute_line (l : Line) (s : Bytes) :
    selfAttribute.valuesFrom (some 10) (l.source ++ s) =
      attributeOf l ++ selfAttribute.valuesFrom (some 10) s := by
  cases l with
  | assign n => exact valuesFrom_line_hit selfAttribute_lineLed (selfAttribute_append n s)
  | header n bases => exact valuesFrom_line_miss selfAttribute_lineLed rfl
  | method f => exact valuesFrom_line_miss selfAttribute_lineLed rfl
  | methodBody => exact valuesFrom_line_miss selfAttribute_lineLed rfl
  | function f => exact valuesFrom_line_miss selfAttribute_lineLed rfl
  | functionBody => exact valuesFrom_line_miss selfAttribute_lineLed rfl

theorem valuesFrom_function_line (l : Line) (s : Bytes) :
    function.valuesFrom (some 10) (l.source ++ s) =
      functionOf l ++ function.valuesFrom (some 10) s := by
  cases l with
  | function f => exact valuesFrom_line_hit function_lineLed (function_append f (10 :: s))
  | header n bases => exact valuesFrom_line_miss function_lineLed rfl
  | method f => exact valuesFrom_line_miss function_lineLed rfl
  | methodBody => exact valuesFrom_line_miss function_lineLed rfl
  | assign n => exact valuesFrom_line_miss function_lineLed rfl
  | functionBody => exact valuesFrom_line_miss function_lineLed rfl

/-! ## Classes among lines -/

def Line.isHeader : Line → Bool
  | header _ _ => true
  | _ => false

/-- The lines before the first class. -/
def leading (lines : List Line) : List Line := lines.takeWhile fun l => !l.isHeader

/-- The classes of some lines: each header takes the lines up to the next one. -/
def classesOf : List Line → List ClassInfo
  | [] => []
  | .header n bases :: ls =>
    { name := n.text
      attributes := (leading ls).flatMap attributeOf
      methods := (leading ls).flatMap methodOf
      parent := bases.head?.map Name.text
      interfaces := bases.tail.map Name.text } :: classesOf ls
  | _ :: ls => classesOf ls

/-- A header begins a class, whatever follows its line. -/
theorem classStart_append (n : Identifier) (bases : List Identifier) (s : Bytes) :
    ∃ rest, classStart (some 10) ((Line.header n bases).text ++ s) = some ((), rest) := by
  have hstart : Read.lineStart (some 10) = true := rfl
  have hshape : (Line.header n bases).text ++ s =
      Bytes.ofString "class " ++ (n.text ++ (baseList bases ++ (Bytes.ofString ":" ++ s))) := by
    simp [Line.text]
  have hname : Read.word (n.text ++ (baseList bases ++ (Bytes.ofString ":" ++ s))) =
      some (n.text, baseList bases ++ (Bytes.ofString ":" ++ s)) := by
    refine n.word_text ?_
    cases bases <;> rfl
  have hsp := Read.spaces1_blank (n.head_isSpace (baseList bases ++ (Bytes.ofString ":" ++ s)))
  rw [hshape]
  generalize baseList bases ++ (Bytes.ofString ":" ++ s) = rest at hname hsp ⊢
  have hlit : Read.literal "class" (Bytes.ofString "class " ++ (n.text ++ rest)) =
      some (0x20 :: (n.text ++ rest)) := rfl
  exact ⟨rest, by simp [classStart, hstart, hlit, hsp, hname]⟩

theorem classStart_silent {lines : List Line} (h : ∀ l ∈ lines, l.isHeader = false) (s : Bytes) :
    classStart.Silent (some 10) (lines.flatMap Line.source) s := by
  induction lines with
  | nil => trivial
  | cons l ls ih =>
    have hl := h l List.mem_cons_self
    have hmiss : ∀ t, classStart (some 10) (l.text ++ 10 :: t) = none := by
      intro t
      cases l with
      | header n bases => cases hl
      | method f => rfl
      | methodBody => rfl
      | assign n => rfl
      | function f => rfl
      | functionBody => rfl
    rw [List.flatMap_cons]
    refine Form.Silent.append ?_ ?_
    · exact classStart_lineLed.silent_line l.newline_not_mem_text (hmiss _)
    · rw [Line.source, Bytes.lastAfter_append]
      exact ih fun l' hl' => h l' (List.mem_cons_of_mem _ hl')

theorem isHeader_of_mem_leading {lines : List Line} {l : Line} (h : l ∈ leading lines) :
    l.isHeader = false := by
  simpa using List.all_eq_true.mp List.all_takeWhile l h

/-- The body of a class is made of the lines up to the next class. -/
theorem body_lines (lines : List Line) :
    body (10 :: lines.flatMap Line.source) = 10 :: (leading lines).flatMap Line.source := by
  have hsplit : lines = leading lines ++ lines.dropWhile fun l => !l.isHeader :=
    List.takeWhile_append_dropWhile.symm
  -- the newline of the header stands in front, where no class begins either
  have hsilent : ∀ s, classStart.Silent none (10 :: (leading lines).flatMap Line.source) s := by
    intro s
    exact ⟨rfl, classStart_silent (fun l => isHeader_of_mem_leading) s⟩
  have hlast : Bytes.lastAfter none (10 :: (leading lines).flatMap Line.source) = some 10 :=
    Bytes.lastAfter_flatMap (fun l => l.lastAfter_source _) _
  -- the lines before the next class are silent, and that class, if there is one, is read
  cases hrest : lines.dropWhile fun l => !l.isHeader with
  | nil =>
    rw [hrest, List.append_nil] at hsplit
    rw [← hsplit] at hsilent ⊢
    rw [body, Form.first?_eq_none (hsilent [])]
  | cons l ls =>
    have hheader : l.isHeader = true := by
      have hhead := List.head?_dropWhile_not (fun l : Line => !l.isHeader) lines
      rw [hrest] at hhead
      simpa using hhead
    cases l with
    | header n bases =>
      obtain ⟨rest, hread⟩ := classStart_append n bases (10 :: ls.flatMap Line.source)
      rw [← hlast] at hread
      have hne : (Line.header n bases).text ++ 10 :: ls.flatMap Line.source ≠ [] := by simp
      have hshape : 10 :: lines.flatMap Line.source = (10 :: (leading lines).flatMap Line.source) ++
          ((Line.header n bases).text ++ 10 :: ls.flatMap Line.source) := by
        rw [hrest] at hsplit
        conv => lhs; rw [hsplit]
        simp [Line.source]
      rw [hshape, body, Form.first?_eq_some hne (hsilent _) hread]
      exact List.take_left
    | method f => cases hheader
    | methodBody => cases hheader
    | assign n => cases hheader
    | function f => cases hheader
    | functionBody => cases hheader

/-- What a search takes from the body of a class. -/
theorem values_body {α : Type} {form : Form α} (hled : form.LineLed)
    (hblank : ∀ s, form none (10 :: s) = none) {f : Line → List α}
    (hline : ∀ l s, form.valuesFrom (some 10) (l.source ++ s) =
      f l ++ form.valuesFrom (some 10) s) (lines : List Line) :
    form.values (body (behind lines)) = (leading lines).flatMap f := by
  cases lines with
  | nil => rfl
  | cons l ls =>
    -- the body begins with the newline of the header, in which nothing is read
    have hfound := Form.valuesFrom_flatMap hline (leading (l :: ls)) []
    rw [Form.valuesFrom_nil, List.append_nil, List.append_nil] at hfound
    rw [behind, body_lines, Form.values_eq_valuesFrom, ← hfound]
    exact hled.valuesFrom_miss List.not_mem_nil (hblank _)

theorem listItems_bases (bases : List Identifier) :
    (Bytes.commaList (bases.map Name.text)).trim.listItems = bases.map Name.text := by
  cases bases with
  | nil => rfl
  | cons b bs =>
    have hline : Bytes.OneLine (Bytes.commaList ((b :: bs).map Name.text)) := by
      refine .commaList (by simp) fun x hx => ?_
      obtain ⟨n, -, rfl⟩ := List.mem_map.mp hx
      exact n.oneLine_text
    have hitems := Name.listItems_commaList (List.cons_ne_nil b bs) (List.forall_mem_nil _)
    rw [List.append_nil] at hitems
    rw [hline.trim_eq, hitems]

/-- The class that is read off a header, given what stands behind it. -/
def classAt (o : Bytes × (Bytes × Bytes) × Bytes) : ClassInfo := ofHeader ⟨0, o.1, o.2.1, o.2.2⟩

theorem classAt_occurrence (o : Occurrence (Bytes × Bytes)) :
    classAt (o.here, o.value, o.rest) = ofHeader o := rfl

/-- A header takes the lines up to the next class. -/
theorem classAt_header (n : Identifier) (bases : List Identifier) (here : Bytes)
    (lines : List Line) :
    classAt (here, (n.text, Bytes.commaList (bases.map Name.text)), behind lines) =
      { name := n.text
        attributes := (leading lines).flatMap attributeOf
        methods := (leading lines).flatMap methodOf
        parent := bases.head?.map Name.text
        interfaces := bases.tail.map Name.text } := by
  have hattributes :=
    values_body selfAttribute_lineLed (fun _ => rfl) valuesFrom_attribute_line lines
  have hmethods := values_body method_lineLed (fun _ => rfl) valuesFrom_method_line lines
  simp [classAt, ofHeader, hattributes, hmethods, listItems_bases]

/-- The search for classes takes a header, and goes on with the next line. -/
theorem sightings_header (n : Identifier) (bases : List Identifier) (lines : List Line) :
    ∃ here, classHeader.sightings (some 10)
        ((Line.header n bases).source ++ lines.flatMap Line.source) =
      (here, (n.text, Bytes.commaList (bases.map Name.text)), behind lines) ::
        classHeader.sightings (some 10) (lines.flatMap Line.source) := by
  have hread := classHeader_append n bases lines
  rw [Line.source_append]
  cases lines with
  | nil =>
    -- the last newline of the text belongs to the header
    have hhit := Form.sightings_hit (u := (Line.header n bases).text ++ [10]) (s := [])
      (by simp) (by simpa [behind] using hread)
    rw [List.append_nil, Form.sightings_nil] at hhit
    exact ⟨_, by rw [List.flatMap_nil, Form.sightings_nil]; exact hhit⟩
  | cons l ls =>
    have hhit := classHeader_lineLed.sightings_line (Line.header n bases).text_ne_nil
      (Line.header n bases).newline_not_mem_text List.not_mem_nil hread
    exact ⟨_, hhit⟩

/-- The classes that are found in some lines. -/
theorem map_classAt_lines (lines : List Line) :
    (classHeader.sightings (some 10) (lines.flatMap Line.source)).map classAt =
      classesOf lines := by
  have hmiss : ∀ (l : Line) (s : Bytes), classHeader (some 10) (l.text ++ 10 :: s) = none →
      classHeader.sightings (some 10) (l.source ++ s) = classHeader.sightings (some 10) s := by
    intro l s h
    rw [l.source_append]
    exact classHeader_lineLed.sightings_miss l.newline_not_mem_text h
  induction lines with
  | nil => rw [List.flatMap_nil, Form.sightings_nil]; rfl
  | cons l ls ih =>
    rw [List.flatMap_cons]
    cases l with
    | header n bases =>
      obtain ⟨here, hfound⟩ := sightings_header n bases ls
      rw [hfound, List.map_cons, classAt_header, ih, classesOf]
    | method f => rw [hmiss _ _ rfl, ih, classesOf]; nofun
    | methodBody => rw [hmiss _ _ rfl, ih, classesOf]; nofun
    | assign n => rw [hmiss _ _ rfl, ih, classesOf]; nofun
    | function f => rw [hmiss _ _ rfl, ih, classesOf]; nofun
    | functionBody => rw [hmiss _ _ rfl, ih, classesOf]; nofun

/-! ## The lines of statements -/

theorem isHeader_of_mem_body {body : List BodyItem} {l : Line}
    (h : l ∈ body.flatMap BodyItem.lines) : l.isHeader = false := by
  obtain ⟨i, -, hl⟩ := List.mem_flatMap.mp h
  cases i with
  | method f =>
    simp only [BodyItem.lines, List.mem_cons, List.not_mem_nil, or_false] at hl
    rcases hl with rfl | rfl <;> rfl
  | assign n =>
    rw [BodyItem.lines, List.mem_singleton] at hl
    rw [hl]
    rfl

theorem leading_body (body : List BodyItem) (ls : List Line) :
    leading (body.flatMap BodyItem.lines ++ ls) = body.flatMap BodyItem.lines ++ leading ls := by
  refine List.takeWhile_append_of_pos fun l hl => ?_
  rw [isHeader_of_mem_body hl]
  rfl

theorem classesOf_body (body : List BodyItem) (ls : List Line) :
    classesOf (body.flatMap BodyItem.lines ++ ls) = classesOf ls := by
  induction body with
  | nil => rfl
  | cons i body ih =>
    rw [List.flatMap_cons, List.append_assoc]
    cases i with
    | method f => exact ih
    | assign n => exact ih

/-- Before the next class stand nothing but functions, which have no methods. -/
theorem methodOf_leading (items : List Item) :
    (leading (items.flatMap Item.lines)).flatMap methodOf = [] := by
  induction items with
  | nil => rfl
  | cons i items ih =>
    cases i with
    | classDecl c => rfl
    | function f => exact ih

theorem attributeOf_leading (items : List Item) :
    (leading (items.flatMap Item.lines)).flatMap attributeOf = [] := by
  induction items with
  | nil => rfl
  | cons i items ih =>
    cases i with
    | classDecl c => rfl
    | function f => exact ih

theorem methodOf_body (body : List BodyItem) :
    (body.flatMap BodyItem.lines).flatMap methodOf = body.flatMap BodyItem.methods := by
  rw [List.flatMap_assoc]
  congr 1
  funext i
  cases i <;> rfl

theorem attributeOf_body (body : List BodyItem) :
    (body.flatMap BodyItem.lines).flatMap attributeOf = body.flatMap BodyItem.attributes := by
  rw [List.flatMap_assoc]
  congr 1
  funext i
  cases i <;> rfl

/-- The classes of the lines of some statements are those that the statements declare. -/
theorem classesOf_items (items : List Item) :
    classesOf (items.flatMap Item.lines) = items.filterMap Item.classInfo? := by
  induction items with
  | nil => rfl
  | cons i items ih =>
    cases i with
    | classDecl c =>
      -- its own body, and then what stands before the next class and counts for nothing
      rw [List.flatMap_cons, Item.lines, List.cons_append, classesOf, leading_body,
        List.flatMap_append, List.flatMap_append, methodOf_body, attributeOf_body,
        methodOf_leading, attributeOf_leading, classesOf_body, ih, List.append_nil,
        List.append_nil]
      rfl
    | function f => exact ih

theorem functionOf_items (items : List Item) :
    (items.flatMap Item.lines).flatMap functionOf = items.filterMap Item.functionInfo? := by
  -- a method is indented, so it is no function
  have hbody : ∀ body : List BodyItem, (body.flatMap BodyItem.lines).flatMap functionOf = [] := by
    intro body
    induction body with
    | nil => rfl
    | cons i body ih =>
      cases i with
      | method f => exact ih
      | assign n => exact ih
  induction items with
  | nil => rfl
  | cons i items ih =>
    cases i with
    | classDecl c =>
      rw [List.flatMap_cons, Item.lines, List.flatMap_append, List.flatMap_cons, hbody, ih]
      rfl
    | function f =>
      rw [List.flatMap_cons, List.flatMap_append, ih]
      rfl

/-! ## The outline -/

/-- The outline of the source of some statements shows exactly the classes and the functions among
them, each in order, and an edge for each base. -/
theorem outline_items (items : List Item) :
    outline (items.flatMap Item.source) =
      ⟨items.filterMap Item.classInfo?, items.filterMap Item.functionInfo?,
        (items.filterMap Item.classInfo?).flatMap ClassInfo.declaredEdges⟩ := by
  have hlines : items.flatMap Item.source = (items.flatMap Item.lines).flatMap Line.source := by
    rw [List.flatMap_assoc]
    rfl
  have hclasses : (classHeader.occurrences (items.flatMap Item.source)).map ofHeader =
      items.filterMap Item.classInfo? := by
    have hstart : ∀ s, classHeader.sightings none s = classHeader.sightings (some 10) s :=
      Form.sightings_congr fun _ => rfl
    have hfound := map_classAt_lines (items.flatMap Item.lines)
    rw [classesOf_items, ← hlines, ← hstart] at hfound
    simpa [Form.sightings, Form.occurrences, Function.comp_def, classAt_occurrence] using hfound
  have hfunctions : function.values (items.flatMap Item.source) =
      items.filterMap Item.functionInfo? := by
    have hstart : ∀ s, function.sightings none s = function.sightings (some 10) s :=
      Form.sightings_congr fun _ => rfl
    have hfound := Form.valuesFrom_flatMap valuesFrom_function_line (items.flatMap Item.lines) []
    rw [functionOf_items, Form.valuesFrom_nil, List.append_nil, List.append_nil, ← hlines] at hfound
    rw [Form.values_eq_valuesFrom, Form.valuesFrom, hstart]
    exact hfound
  rw [outline, hclasses, hfunctions, Outline.ofParts_eq]

-- the source of a class between two functions
example :
    let name (s : String) (h : Bytes.ofString s ≠ [] ∧ (Bytes.ofString s).all Bytes.isWord) :
      Identifier := ⟨Bytes.ofString s, h.1, List.all_eq_true.mp h.2, List.not_mem_nil⟩
    let run : FunctionDecl := ⟨name "run" (by decide), []⟩
    let bark : FunctionDecl := ⟨name "bark" (by decide), [name "self" (by decide),
      name "n" (by decide)]⟩
    let dog : ClassDecl := ⟨name "Dog" (by decide), [name "Animal" (by decide),
      name "Pet" (by decide)], [.method bark, .assign (name "age" (by decide))]⟩
    [Item.function run, .classDecl dog, .function run].flatMap Item.source =
      Bytes.ofString ("def run():\n    pass\n" ++ "class Dog(Animal, Pet):\n" ++
        "    def bark(self, n):\n        pass\n" ++ "        self.age = 0\n" ++
        "def run():\n    pass\n") := by
  decide +kernel

end ClassOutline.Python
