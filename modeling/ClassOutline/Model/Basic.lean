import ClassOutline.Text.Bytes

/-!
# The outline of a source text

An outline lists the classes and top-level functions of a source text, and the inheritance edges
between class names. Edges are candidates: the far end need not be a class of the same outline.
They stand in the order of the classes, and for each class the parent comes before the interfaces.
-/

namespace ClassOutline

/-- A field or property of a class. -/
structure Attribute where
  name : Bytes
  type : Bytes
  visibility : Bytes
deriving DecidableEq, Repr

/-- A method of a class. -/
structure Method where
  name : Bytes
  /-- The parameter list on one line. -/
  params : Bytes
  returns : Bytes
  visibility : Bytes
deriving DecidableEq, Repr

/-- A class with its members and what it inherits from. -/
structure ClassInfo where
  name : Bytes
  attributes : List Attribute
  methods : List Method
  /-- The parent class, if one is named. -/
  parent : Option Bytes
  interfaces : List Bytes
deriving DecidableEq, Repr

/-- A function outside every class. -/
structure FunctionInfo where
  name : Bytes
  params : Bytes
  returns : Bytes
deriving DecidableEq, Repr

/-- An inheritance edge between two class names. -/
structure Edge where
  source : Bytes
  target : Bytes
  /-- What the edge says: the word that declares it. -/
  kind : Bytes
deriving DecidableEq, Repr

/-- The kind of an edge to a parent class. -/
def Edge.toParent : Bytes := Bytes.ofString "extends"

/-- The kind of an edge to an interface. -/
def Edge.toInterface : Bytes := Bytes.ofString "implements"

/-- The coarse structure of a source text. -/
structure Outline where
  classes : List ClassInfo := []
  functions : List FunctionInfo := []
  edges : List Edge := []
deriving DecidableEq, Repr

/-- The visibility of a member that declares none. -/
def defaultVisibility : Bytes := Bytes.ofString "public"

/-- The inheritance edges of a class: its parent, if it names one, then each interface. -/
def ClassInfo.edges (c : ClassInfo) : List Edge :=
  let toParent :=
    match c.parent with
    | some p => if p.isEmpty then [] else [⟨c.name, p, Edge.toParent⟩]
    | none => []
  toParent ++ c.interfaces.map fun i => ⟨c.name, i, Edge.toInterface⟩

namespace Outline

/-- The outline of an empty text. -/
def empty : Outline := {}

/-- Nothing was found: neither a class nor a function. Edges exist only beside classes. -/
def isEmpty (o : Outline) : Bool := o.classes.isEmpty && o.functions.isEmpty

/-- The outline with one more class and its edges. -/
def addClass (o : Outline) (c : ClassInfo) : Outline :=
  { o with classes := o.classes ++ [c], edges := o.edges ++ c.edges }

/-- The outline with one more function. -/
def addFunction (o : Outline) (f : FunctionInfo) : Outline :=
  { o with functions := o.functions ++ [f] }

/-- One outline after another; nothing is merged or dropped. -/
def append (o p : Outline) : Outline :=
  ⟨o.classes ++ p.classes, o.functions ++ p.functions, o.edges ++ p.edges⟩

instance : Append Outline := ⟨append⟩

/-- The outline with another one merged into it, where there is another one. -/
def merge (o : Outline) : Option Outline → Outline
  | none => o
  | some p => o ++ p

/-- The outline of a list of classes and a list of functions. -/
def ofParts (classes : List ClassInfo) (functions : List FunctionInfo) : Outline :=
  { classes.foldl addClass empty with functions := functions }

end Outline

end ClassOutline
