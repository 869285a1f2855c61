import SlotGraph.Config.Layout
import SlotGraph.Graph.Edit
import SlotGraph.Schema.Mapping
import SlotGraph.Template.Registry

/-!
# Importing a config document

A document becomes nodes in three passes.  Each element under a group key becomes
a node; these nodes are filled from their elements, an integer linking to the
node of that position in the group of the field's class and an inline object
becoming an embedded node of its own; last, a root node is linked to every group
and filled with the remaining keys.  What cannot be used is reported and passed
over.
-/

namespace SlotGraph

namespace Import

structure Setting where
  schema : Schema
  registry : Registry
  layout : ImportLayout

/-- The nodes made for one document key, each with the element it stands for. -/
structure Group where
  key : String
  className : String
  nodes : List (NodeId × Json)

structure Progress where
  graph : Graph
  issues : List Issue
  embedded : Nat
  links : Nat

/-- How many nodes and links an import made. -/
structure Summary where
  groupNodes : Nat
  embeddedNodes : Nat
  links : Nat
  root : Option NodeId

namespace Progress

def start (g : Graph) : Progress :=
  ⟨g, [], 0, 0⟩

def report (p : Progress) (issue : Issue) : Progress :=
  { p with issues := p.issues ++ [issue] }

def createNode (p : Progress) (setting : Setting) (className : String) (x y : Float) :
    Option NodeId × Progress :=
  match setting.registry.find? setting.schema.name className with
  | some template =>
      let (id, graph) := p.graph.addNode template x y
      (some id, { p with graph := graph })
  | none => (none, p.report (.missingTemplate setting.schema.name className))

/-- Link a node into a slot, under a key if there is one. -/
def link (p : Progress) (origin target : NodeId) (slot : Nat) (key : String) : Progress :=
  match p.graph.connect origin 0 target slot with
  | .ok (id, graph) =>
      { p with
        graph := if key = "" then graph else (graph.setKey? id key).getD graph
        links := p.links + 1 }
  | .error fault => { p with issues := p.issues ++ fault.issues }

def setNative (p : Progress) (id : NodeId) (slot : Nat) (value : Json) : Progress :=
  { p with graph := (p.graph.setNative? id slot value).getD p.graph }

def isNative (p : Progress) (id : NodeId) (slot : Nat) : Bool :=
  ((p.graph.findNode? id).bind fun node => node.nativeAt? slot).isSome

/-- Empty an optional native slot whose field the document leaves out. -/
def clearMissing (p : Progress) (id : NodeId) (slot : Nat) : Progress :=
  match (p.graph.findNode? id).bind fun node => node.inputs[slot]? with
  | some input =>
      if input.optional && input.feed.native?.isSome then p.setNative id slot .null else p
  | none => p

end Progress

/-- Make the nodes of a group, from a given row on; a class without template stops it. -/
def createElements (setting : Setting) (className : String) (x : Float) :
    Nat → List Json → Progress → List (NodeId × Json) × Progress
  | _, [], p => ([], p)
  | row, element :: rest, p =>
      match p.createNode setting className x (setting.layout.rowY row) with
      | (some id, p) =>
          let (nodes, p) := createElements setting className x (row + 1) rest p
          ((id, element) :: nodes, p)
      | (none, p) => ([], p)

/-- The elements of a group value: the items of an array, or one object. -/
def elements? : Json → Option (List Json)
  | .arr xs => some xs
  | .obj ms => some [.obj ms]
  | _ => none

/-- The class of a group key whose value holds elements, and those elements. -/
def groupElements? (schema : Schema) (key : String) (value : Json) :
    Option (String × List Json) :=
  match schema.classOfKey? key with
  | some className =>
      if className != schema.rootType && schema.isGroupKey key then
        (elements? value).map fun elements => (className, elements)
      else
        none
  | none => none

/--
First pass: make the nodes of every group, each in a column of its own, and
collect the keys that are no groups.
-/
def createGroups (setting : Setting) :
    Float → List (String × Json) → Progress → List Group × List String × Progress
  | _, [], p => ([], [], p)
  | x, (key, value) :: rest, p =>
      match groupElements? setting.schema key value with
      | some (className, elements) =>
          let (nodes, p) := createElements setting className x 0 elements p
          let (groups, loose, p) :=
            createGroups setting (x + setting.layout.columnSpacing) rest p
          (⟨key, className, nodes⟩ :: groups, loose, p)
      | none =>
          let (groups, loose, p) := createGroups setting x rest p
          (groups, key :: loose, p)

def Group.node? (group : Group) (position : Nat) : Option NodeId :=
  group.nodes[position]?.map Prod.fst

def findGroup? (groups : List Group) (key : String) : Option Group :=
  groups.find? fun group => group.key == key

/--
The node that an index in a field stands for: the one at that position in the
group of the field's class, or else in any group of that class.  Embedded nodes
are never counted.
-/
def resolve? (schema : Schema) (groups : List Group) (field : Field) (index : Int) :
    Option NodeId :=
  match schema.modelOf? field with
  | some className =>
      if index < 0 then none
      else
        ((findGroup? groups (schema.keyOfClass className)).bind (·.node? index.toNat)) <|>
          groups.findSome? fun group =>
            if group.className == className then group.node? index.toNat else none
  | none => none

/-- Link the node that an index stands for into a slot. -/
def linkIndex (setting : Setting) (groups : List Group) (id : NodeId) (slot : Nat)
    (field : Field) (index : Int) (key : String) (p : Progress) : Progress :=
  match resolve? setting.schema groups field index with
  | some origin => p.link origin id slot key
  | none => p.report (.indexOutOfRange index field.name)

/-- The classes that have a field for every member of an object. -/
def classesCovering (schema : Schema) (object : List (String × Json)) : List String :=
  (schema.classes.filter fun cls =>
    object.all fun member => cls.fields.any fun field => field.name == member.1).map
      SchemaClass.name

/-- The class of an inline object: that of its field, or the first that fits by field names. -/
def embeddedClass? (schema : Schema) (field : Field) (object : List (String × Json))
    (p : Progress) : Option String × Progress :=
  match schema.modelOf? field with
  | some className => (some className, p)
  | none =>
      match classesCovering schema object with
      | [] => (none, p.report (.noFittingClass field.name))
      | chosen :: others => (some chosen, p.report (.guessedClass chosen (chosen :: others)))

/-- How an inline object in a field becomes a node. -/
abbrev Embed :=
  Field → List (String × Json) → Progress → Option NodeId × Progress

def linkElement (setting : Setting) (groups : List Group) (embed : Embed) (id : NodeId)
    (slot : Nat) (field : Field) (key : String) (element : Json) (p : Progress) : Progress :=
  match element.int64? with
  | some index => linkIndex setting groups id slot field index key p
  | none =>
      match element with
      | .obj object =>
          match embed field object p with
          | (some origin, p) => p.link origin id slot key
          | (none, p) => p
      | element => p.report (.unusableElement element field.name)

/-- Fill a slot that only links feed. -/
def fillLinked (setting : Setting) (groups : List Group) (embed : Embed) (id : NodeId)
    (slot : Nat) (field : Field) (value : Json) (p : Progress) : Progress :=
  match value with
  | .arr elements =>
      elements.foldl
        (fun p element => linkElement setting groups embed id slot field "" element p) p
  | .obj object =>
      if field.type.required.isDict then
        object.foldl
          (fun p entry => linkElement setting groups embed id slot field entry.1 entry.2 p) p
      else
        linkElement setting groups embed id slot field "" (.obj object) p
  | value =>
      match value.int64? with
      | some index => linkIndex setting groups id slot field index "" p
      | none => p.report (.unusableValue value field.name)

/-- A value as a native slot holds it: arrays and objects become text. -/
def nativeForm (value : Json) : Json :=
  if value.isStructured then .str value.render else value

def fillSlot (setting : Setting) (groups : List Group) (embed : Embed) (id : NodeId)
    (slot : Nat) (field : Field) (value : Json) (p : Progress) : Progress :=
  if p.isNative id slot then p.setNative id slot (nativeForm value)
  else if value.isNull then p
  else fillLinked setting groups embed id slot field value p

def fillFields (setting : Setting) (groups : List Group) (embed : Embed) (id : NodeId)
    (source : List (String × Json)) : Nat → List Field → Progress → Progress
  | _, [], p => p
  | slot, field :: rest, p =>
      let filled :=
        match source.lookup field.name with
        | some value => fillSlot setting groups embed id slot field value p
        | none => p.clearMissing id slot
      fillFields setting groups embed id source (slot + 1) rest filled

def populate (setting : Setting) (groups : List Group) (embed : Embed) (id : NodeId)
    (source : List (String × Json)) (p : Progress) : Progress :=
  match (p.graph.findNode? id).bind fun node => setting.schema.findClass? node.className with
  | some cls => fillFields setting groups embed id source 0 cls.fields p
  | none => p

/-- Make a node for an inline object, whose own inline objects are embedded in turn. -/
def embedWith (setting : Setting) (groups : List Group) (embed : Embed) : Embed :=
  fun field object p =>
    match embeddedClass? setting.schema field object p with
    | (some className, p) =>
        match p.createNode setting className
            (setting.layout.embeddedX p.embedded) (setting.layout.embeddedY p.embedded) with
        | (some id, p) =>
            (some id,
              populate setting groups embed id object { p with embedded := p.embedded + 1 })
        | (none, p) => (none, p)
    | (none, p) => (none, p)

/-- Make nodes for inline objects that nest at most so deep. -/
def embedAt (setting : Setting) (groups : List Group) : Nat → Embed
  | 0 => fun _ _ p => (none, p)
  | depth + 1 => embedWith setting groups (embedAt setting groups depth)

/-- Fill the nodes of a group, the first of which has the given position. -/
def populateNodes (setting : Setting) (groups : List Group) (embed : Embed) (key : String) :
    Nat → List (NodeId × Json) → Progress → Progress
  | _, [], p => p
  | position, (id, element) :: rest, p =>
      let filled :=
        match element with
        | .obj source => populate setting groups embed id source p
        | _ => p.report (.elementNotObject key position)
      populateNodes setting groups embed key (position + 1) rest filled

/-- Second pass: fill the nodes of every group. -/
def populateGroups (setting : Setting) (groups : List Group) (embed : Embed)
    (p : Progress) : Progress :=
  groups.foldl (fun p group => populateNodes setting groups embed group.key 0 group.nodes p) p

/-- Link the nodes of a group into a slot: all of them, or the first where one fits. -/
def linkGroup (root : NodeId) (slot : Nat) (group : Group) (p : Progress) : Progress :=
  let collects :=
    ((p.graph.findNode? root).bind fun node => node.inputs[slot]?).any (·.feed.collects)
  let members := if collects then group.nodes else group.nodes.take 1
  members.foldl (fun p member => p.link member.1 root slot "") p

def fillRoot (setting : Setting) (groups : List Group) (embed : Embed) (root : NodeId)
    (document : List (String × Json)) : Nat → List Field → Progress → Progress
  | _, [], p => p
  | slot, field :: rest, p =>
      let filled :=
        match findGroup? groups field.name with
        | some group => linkGroup root slot group p
        | none =>
            match document.lookup field.name with
            | some value => fillSlot setting groups embed root slot field value p
            | none => p.clearMissing root slot
      fillRoot setting groups embed root document (slot + 1) rest filled

def hasSlot (g : Graph) (id : NodeId) (key : String) : Bool :=
  (g.findNode? id).any fun node => (node.inputIndex? key).isSome

/-- Third pass: make and fill the root, and report the keys that nothing took. -/
def createRoot (setting : Setting) (groups : List Group) (embed : Embed)
    (loose : List String) (document : List (String × Json)) (p : Progress) :
    Option NodeId × Progress :=
  match setting.schema.rootClass? with
  | none => (none, loose.foldl (fun p key => p.report (.strayKey key)) p)
  | some cls =>
      match p.createNode setting cls.name setting.layout.rootX setting.layout.rowStartY with
      | (none, p) => (none, p)
      | (some root, p) =>
          let p := fillRoot setting groups embed root document 0 cls.fields p
          let stray := loose.filter fun key => !hasSlot p.graph root key
          (some root, stray.foldl (fun p key => p.report (.strayRootKey key)) p)

def groupNodeCount (groups : List Group) : Nat :=
  (groups.flatMap fun group => group.nodes).length

/-- Add the nodes of a document given by its members. -/
def run (setting : Setting) (g : Graph) (document : List (String × Json)) :
    Summary × Progress :=
  let (groups, loose, p) :=
    createGroups setting setting.layout.columnStartX document (Progress.start g)
  let embed := embedAt setting groups (Json.obj document).depth
  let p := populateGroups setting groups embed p
  let (root, p) := createRoot setting groups embed loose document p
  (⟨groupNodeCount groups, p.embedded, p.links, root⟩, p)

end Import

end SlotGraph
