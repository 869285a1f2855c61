import SlotGraph.Schema.Basic
import SlotGraph.Schema.Naming
import SlotGraph.TypeExpr.Parser

/-!
# Classes and document keys

Which class a field refers to, and under which document key the nodes of a class
are written.  With a root class its fields are the keys; without one, and for
classes that no root field refers to, the key is the plural of the class name.
-/

namespace SlotGraph

namespace TypeExpr

/-- The value type of a dictionary: its second argument. -/
def dictValue? : TypeExpr → Option TypeExpr
  | .dict arguments =>
      match Text.splitTop ',' arguments.toList with
      | _ :: value :: _ => ofText? value
      | _ => none
  | _ => none

/-- The type of the values in a collection, or of the value itself. -/
def element? (type : TypeExpr) : Option TypeExpr :=
  match type.required with
  | .wrapped .optional inner => some (.wrapped .optional inner)
  | .wrapped _ inner => some inner
  | .dict arguments => dictValue? (.dict arguments)
  | plain => some plain

def name? : TypeExpr → Option String
  | .named name => some name
  | _ => none

/--
The class that a field of this type refers to: that of its element type, or the
first class among the alternatives of its element type that is not the index type.
-/
def modelClass? (type : TypeExpr) (indexType : String) (classes : List SchemaClass) :
    Option String :=
  match type.element?.map required with
  | some (.union alternatives) =>
      alternatives.findSome? fun alternative =>
        alternative.required.name?.filter fun name =>
          name != indexType && SchemaClass.declared classes name
  | some (.named name) => if SchemaClass.declared classes name then some name else none
  | _ => none

end TypeExpr

namespace FieldMapping

/-- Set the value of a key; a key that is there keeps its place. -/
def put (key value : String) : List (String × String) → List (String × String)
  | [] => [(key, value)]
  | (k, v) :: rest => if k = key then (key, value) :: rest else (k, v) :: put key value rest

def ofClassNames (classes : List SchemaClass) : FieldMapping :=
  classes.foldl
    (fun mapping c =>
      let field := Naming.fieldName c.name
      { mapping with
        fieldOfClass := put c.name field mapping.fieldOfClass
        classOfField := put field c.name mapping.classOfField })
    ⟨[], [], false⟩

/-- The keys found so far among the fields of a root, and the classes held by a list. -/
structure RootScan where
  mapping : FieldMapping
  /-- For each class found, whether the field chosen for it is a list. -/
  chosenIsList : List (String × Bool)

/-- Take one root field into account; a list field wins over a single reference. -/
def RootScan.step (indexType : String) (classes : List SchemaClass) (scan : RootScan)
    (field : Field) : RootScan :=
  match field.type.modelClass? indexType classes with
  | none => scan
  | some model =>
      let classOfField := put field.name model scan.mapping.classOfField
      let wins :=
        match scan.chosenIsList.lookup model with
        | none => true
        | some chosen => field.type.isList && !chosen
      if wins then
        { mapping :=
            { scan.mapping with
              classOfField := classOfField
              fieldOfClass := put model field.name scan.mapping.fieldOfClass }
          chosenIsList := (model, field.type.isList) :: scan.chosenIsList }
      else
        { scan with mapping := { scan.mapping with classOfField := classOfField } }

/-- The keys of a schema with a root: those of its fields that refer to a class. -/
def ofRoot (root : SchemaClass) (indexType : String) (classes : List SchemaClass) :
    FieldMapping :=
  (root.fields.foldl (RootScan.step indexType classes) ⟨⟨[], [], true⟩, []⟩).mapping

def build (classes : List SchemaClass) (rootType indexType : String) : FieldMapping :=
  match classes.reverse.find? fun c => rootType != "" && c.name == rootType with
  | some root => ofRoot root indexType classes
  | none => ofClassNames classes

end FieldMapping

namespace Schema

def ofClasses (name indexType rootType : String) (classes : List SchemaClass) : Schema :=
  { name := name
    indexType := indexType
    rootType := rootType
    classes := classes
    mapping := FieldMapping.build classes rootType indexType }

def modelOf? (schema : Schema) (field : Field) : Option String :=
  field.type.modelClass? schema.indexType schema.classes

def keyOfClass (schema : Schema) (className : String) : String :=
  (schema.mapping.fieldOfClass.lookup className).getD (Naming.fieldName className)

/-- Whether a class without a key of its own would be written under this key. -/
def claimsByName (schema : Schema) (key : String) (c : SchemaClass) : Bool :=
  c.name != schema.rootType && (schema.mapping.fieldOfClass.lookup c.name).isNone &&
    Naming.fieldName c.name == key

def classOfKey? (schema : Schema) (key : String) : Option String :=
  match schema.mapping.classOfField.lookup key with
  | some className => some className
  | none => (schema.classes.find? (schema.claimsByName key)).map SchemaClass.name

/-- Whether a document key is the one that the nodes of its class are written under. -/
def isGroupKey (schema : Schema) (key : String) : Bool :=
  (schema.classOfKey? key).any fun className => schema.keyOfClass className == key

/--
Whether a group of nodes is written as an array even when it holds one node: not
when the root declares the key with a plain or a union type.
-/
def groupIsList (schema : Schema) (key : String) : Bool :=
  match schema.rootClass?.bind fun root => root.fields.find? fun f => f.name == key with
  | none => true
  | some field =>
      match field.type.required with
      | .named _ | .union _ => false
      | _ => true

end Schema

end SlotGraph
