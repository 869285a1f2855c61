import SlotGraph.Template.SlotType

/-!
# The templates of a session

One template for each declared class, and the six value nodes that are always
there.  Look-ups give the first template that matches.
-/

namespace SlotGraph

/-- The slot of a field, in a class that may be the root of its schema. -/
def InputSpec.ofField (schema : Schema) (inRoot : Bool) (field : Field) : InputSpec :=
  let intake := field.type.intake schema.indexType schema.classes inRoot
  { name := field.name
    type := field.type.slotType schema.indexType
    linkType :=
      match intake with
      | .many _ => field.type.elementLinkType schema.indexType
      | .single _ => field.type.slotType schema.indexType
    optional := field.type.isOptional
    intake := intake }

namespace NodeTemplate

def ofClass (schema : Schema) (schemaId classId : Nat) (cls : SchemaClass) : NodeTemplate :=
  let isRoot := schema.rootType != "" && schema.rootType == cls.name
  { key := ⟨schemaId, classId⟩
    schemaName := schema.name
    className := cls.name
    isRoot := isRoot
    valueKind := none
    outputs := [⟨"self", cls.name⟩]
    inputs := cls.fields.map (InputSpec.ofField schema isRoot)
    width := NodeSize.schemaWidth
    height := NodeSize.heightFor cls.fields.length }

def ofClassesFrom (schema : Schema) (schemaId : Nat) :
    Nat → List SchemaClass → List NodeTemplate
  | _, [] => []
  | classId, cls :: rest =>
      ofClass schema schemaId classId cls :: ofClassesFrom schema schemaId (classId + 1) rest

def ofSchema (schema : Schema) (schemaId : Nat) : List NodeTemplate :=
  ofClassesFrom schema schemaId 1 schema.classes

def nativeSchema : String :=
  "Native"

def ofValue (classId : Nat) (className outputType : String) (kind : NativeKind) :
    NodeTemplate :=
  { key := ⟨0, classId⟩
    schemaName := nativeSchema
    className := className
    isRoot := false
    valueKind := some kind
    outputs := [⟨"value", outputType⟩]
    inputs := []
    width := NodeSize.valueWidth
    height := NodeSize.leastHeight }

def valueTemplates : List NodeTemplate :=
  [ ofValue 1 "String" "str" .string
  , ofValue 2 "Integer" "int" .integer
  , ofValue 3 "Boolean" "bool" .boolean
  , ofValue 4 "Float" "float" .float
  , ofValue 5 "List" "List[Any]" .list
  , ofValue 6 "Dict" "Dict[str,Any]" .dict ]

end NodeTemplate

/-- The templates known to a session, in the order in which they were added. -/
structure Registry where
  templates : List NodeTemplate

namespace Registry

def initial : Registry :=
  ⟨NodeTemplate.valueTemplates⟩

/-- Forget the templates of a schema; those of schema zero stay. -/
def remove (registry : Registry) (schemaId : Nat) : Registry :=
  if schemaId = 0 then registry
  else ⟨registry.templates.filter fun t => t.key.schemaId != schemaId⟩

/-- Add the templates of a schema; those under the same number give way. -/
def add (registry : Registry) (schema : Schema) (schemaId : Nat) : Registry :=
  ⟨(registry.remove schemaId).templates ++ NodeTemplate.ofSchema schema schemaId⟩

def findKey? (registry : Registry) (key : TemplateKey) : Option NodeTemplate :=
  registry.templates.find? fun t => t.key == key

def find? (registry : Registry) (schemaName className : String) : Option NodeTemplate :=
  registry.templates.find? fun t => t.schemaName == schemaName && t.className == className

def findTitle? (registry : Registry) (title : String) : Option NodeTemplate :=
  registry.templates.find? fun t => t.title == title

def ofSchema (registry : Registry) (schemaName : String) : List NodeTemplate :=
  registry.templates.filter fun t => t.schemaName == schemaName

def titles (registry : Registry) : List String :=
  registry.templates.map NodeTemplate.title

end Registry

end SlotGraph
