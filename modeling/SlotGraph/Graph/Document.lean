import SlotGraph.Graph.Edit
import SlotGraph.Template.Registry
import SlotGraph.Text.Numeral

/-!
# Graph documents

A graph as a JSON document, and back.  Loading rebuilds each node from its
template and takes over position, size and values; what it cannot use it passes
over, and a node without a template is reported.
-/

namespace SlotGraph

namespace Json

/-- The text under a key; empty when there is none. -/
def textAt (value : Json) (key : String) : String :=
  ((value.get? key).bind string?).getD ""

/-- The signed 64-bit integer under a key; zero when there is none. -/
def int64At (value : Json) (key : String) : Int :=
  ((value.get? key).bind int64?).getD 0

def double? : Json → Option Float
  | .int n => some (Double.ofInt n)
  | .minusZero => some 0.0
  | .float x => some x
  | _ => none

def pairAt? (value : Json) (key : String) : Option (Float × Float) :=
  match value.get? key with
  | some (.arr [a, b]) => do return (← a.double?, ← b.double?)
  | _ => none

end Json

namespace Graph

def documentVersion : String :=
  "1.0"

def nativeDocument (slot : InputSlot) (cell : NativeCell) : Json :=
  .obj
    [ ("optional", .bool slot.optional)
    , ("type", .str cell.kind.name)
    , ("value", cell.value) ]

def nativesDocument (slots : List InputSlot) : Json :=
  Json.ofMembers
    (slots.zipIdx.filterMap fun (slot, position) =>
      slot.feed.native?.map fun cell => (toString position, nativeDocument slot cell))

def nodeDocument (node : Node) : Json :=
  .obj
    ([ ("class_name", .str node.className)
     , ("id", .int node.id)
     , ("is_native", .bool node.isValueNode)
     , ("is_root", .bool node.isRoot)
     , ("native_inputs", nativesDocument node.inputs)
     , ("pos", .arr [.float node.x, .float node.y]) ] ++
     (match node.cell with
      | some cell => [("properties", .obj [("value", cell.value)])]
      | none => []) ++
     [ ("schema_name", .str node.schemaName)
     , ("size", .arr [.float node.width, .float node.height])
     , ("type", .str node.title) ])

def linkDocument (link : Link) : Json :=
  .obj
    ([("id", .int link.id)] ++
     (if link.key = "" then [] else [("key", .str link.key)]) ++
     [ ("origin_id", .int link.origin)
     , ("origin_slot", .int link.originSlot)
     , ("target_id", .int link.target)
     , ("target_slot", .int link.targetSlot)
     , ("type", .str link.type) ])

def document (g : Graph) : Json :=
  .obj
    [ ("last_link_id", .int g.lastLink)
    , ("last_node_id", .int g.lastNode)
    , ("links", .arr (g.links.map linkDocument))
    , ("nodes", .arr (g.nodes.map nodeDocument))
    , ("version", .str documentVersion) ]

/-- The template of a node document: by schema and class, or else by title. -/
def templateOf? (registry : Registry) (source : Json) : Option NodeTemplate :=
  let schemaName := source.textAt "schema_name"
  let className := source.textAt "class_name"
  let byClass :=
    if schemaName ≠ "" ∧ className ≠ "" then registry.find? schemaName className else none
  byClass <|> registry.findTitle? (source.textAt "type")

/-- The value in an entry of the native inputs: a member `value`, or a bare value. -/
def nativeEntry? : Json → Option Json
  | .obj ms => ms.lookup "value"
  | value => some value

/-- Take over the entries of the native inputs whose keys number native slots. -/
def applyNatives (node : Node) (entries : List (String × Json)) : Node :=
  entries.foldl
    (fun node (key, entry) =>
      match Text.leadingUInt64? key.toList, nativeEntry? entry with
      | some slot, some value => node.modifyFeed slot (Feed.setNative value)
      | _, _ => node)
    node

def applyPlacement (node : Node) (source : Json) : Node :=
  let moved :=
    match source.pairAt? "pos" with
    | some (x, y) => { node with x := x, y := y }
    | none => node
  match source.pairAt? "size" with
  | some (width, height) => { moved with width := width, height := height }
  | none => moved

def applyProperty (node : Node) (source : Json) : Node :=
  match (source.get? "properties").bind fun properties => properties.get? "value" with
  | some value => { node with cell := node.cell.map fun cell => { cell with value := value } }
  | none => node

def nodeOfDocument (template : NodeTemplate) (source : Json) : Node :=
  let fresh := Node.ofTemplate template (source.int64At "id")
  let natives := ((source.get? "native_inputs").map Json.members).getD []
  applyProperty (applyNatives (applyPlacement fresh source) natives) source

/-- A slot number; a negative one counts backwards from `2 ^ 64`. -/
def slotNumber (n : Int) : Nat :=
  (n.emod (2 ^ 64)).toNat

def linkOfDocument (source : Json) : Link :=
  { id := source.int64At "id"
    origin := source.int64At "origin_id"
    originSlot := slotNumber (source.int64At "origin_slot")
    target := source.int64At "target_id"
    targetSlot := slotNumber (source.int64At "target_slot")
    type := source.textAt "type"
    key := source.textAt "key" }

/-- Load one node; an item that is no object is passed over. -/
def loadNode (registry : Registry) (g : Graph) (source : Json) : Graph × List Issue :=
  if !source.isObject then
    (g, [])
  else
    match templateOf? registry source with
    | some template => ((g.restoreNode? (nodeOfDocument template source)).getD g, [])
    | none => (g, [.unknownNode (source.textAt "type")])

def loadNodes (registry : Registry) (g : Graph) : List Json → Graph × List Issue
  | [] => (g, [])
  | source :: rest =>
      let (next, issues) := loadNode registry g source
      let (final, further) := loadNodes registry next rest
      (final, issues ++ further)

/-- Load one link; an item that is no object is passed over. -/
def loadLink (g : Graph) (source : Json) : Graph :=
  if source.isObject then (g.restoreLink? (linkOfDocument source)).getD g else g

/--
Replace the contents of a graph by those of a document, and report the nodes
without a template.  Nothing when the document has no list of nodes.
-/
def load? (registry : Registry) (g : Graph) (source : Json) : Option (Graph × List Issue) :=
  ((source.get? "nodes").bind Json.items?).map fun nodes =>
    let (withNodes, issues) := loadNodes registry g.clear nodes
    let links := ((source.get? "links").bind Json.items?).getD []
    let withLinks := links.foldl loadLink withNodes
    (withLinks.raiseCounters (source.int64At "last_node_id") (source.int64At "last_link_id"),
      issues)

end Graph

end SlotGraph
