import SlotGraph.TypeExpr.Basic

/-!
# Schemas

A schema declares classes with typed fields.  One class may be designated as the
root: a document's top level then holds the root's fields.
-/

namespace SlotGraph

structure Field where
  name : String
  type : TypeExpr
  /-- The type as it was written. -/
  rawType : String
  /-- The default as it was written; it is only shown, never used. -/
  defaultText : String

/-- A declared class; its fields in declaration order are the input slots of its nodes. -/
structure SchemaClass where
  name : String
  fields : List Field

/-- Which document key a class is written under, and which class a key stands for. -/
structure FieldMapping where
  fieldOfClass : List (String × String)
  classOfField : List (String × String)
  /-- Whether the keys are those of a root class. -/
  fromRoot : Bool

/-- A schema with its classes in declaration order. -/
structure Schema where
  name : String
  /-- The name that stands for a reference by index. -/
  indexType : String
  /-- The designated root class; empty when there is none. -/
  rootType : String
  classes : List SchemaClass
  mapping : FieldMapping

def Schema.defaultIndexType : String :=
  "Index"

namespace SchemaClass

def find? (classes : List SchemaClass) (name : String) : Option SchemaClass :=
  classes.find? fun c => c.name == name

def declared (classes : List SchemaClass) (name : String) : Bool :=
  classes.any fun c => c.name == name

end SchemaClass

namespace Schema

def findClass? (schema : Schema) (name : String) : Option SchemaClass :=
  SchemaClass.find? schema.classes name

/-- The designated root class, if it is declared. -/
def rootClass? (schema : Schema) : Option SchemaClass :=
  if schema.rootType = "" then none else schema.findClass? schema.rootType

end Schema

end SlotGraph
