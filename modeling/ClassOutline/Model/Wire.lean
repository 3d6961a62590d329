import ClassOutline.Json.Basic
import ClassOutline.Model.Basic

/-!
# Outlines as JSON

The member names and their order are fixed: a reader of the output relies on them.
-/

namespace ClassOutline

/-- The JSON form of an attribute. -/
def Attribute.toJson (a : Attribute) : Json :=
  .record [("name", .str a.name), ("type", .str a.type),
    ("visibility", .str a.visibility)]

/-- The JSON form of a method. -/
def Method.toJson (m : Method) : Json :=
  .record [("name", .str m.name), ("params", .str m.params),
    ("returns", .str m.returns), ("visibility", .str m.visibility)]

/-- The JSON form of a class. -/
def ClassInfo.toJson (c : ClassInfo) : Json :=
  .record [("name", .str c.name), ("attributes", .arr (c.attributes.map (·.toJson))),
    ("methods", .arr (c.methods.map (·.toJson))), ("extends", .strOrNull c.parent),
    ("implements", .arr (c.interfaces.map .str))]

/-- The JSON form of a function. -/
def FunctionInfo.toJson (f : FunctionInfo) : Json :=
  .record [("name", .str f.name), ("params", .str f.params),
    ("returns", .str f.returns)]

/-- The JSON form of an edge. -/
def Edge.toJson (e : Edge) : Json :=
  .record [("from", .str e.source), ("to", .str e.target), ("type", .str e.kind)]

/-- The JSON form of an outline. -/
def Outline.toJson (o : Outline) : Json :=
  .record [("classes", .arr (o.classes.map (·.toJson))),
    ("functions", .arr (o.functions.map (·.toJson))),
    ("relationships", .arr (o.edges.map (·.toJson)))]

end ClassOutline
