import SlotGraph.Graph.Value
import SlotGraph.Template.Basic

/-!
# Graphs

Nodes with typed slots, links between them, and the two counters that numbers
are drawn from.  A link is listed three times: in the graph, in the output slot
it leaves, and in the input slot it enters.  The look-ups and the elementary
changes of one slot list are here; what a host can do stands in the modules that
build on this one.
-/

namespace SlotGraph

/-- The editable value of a native slot or of a value node. -/
structure NativeCell where
  kind : NativeKind
  value : Json

inductive Feed where
  /-- At most one link, and the native value that counts while there is none. -/
  | single (link : Option LinkId) (native : Option NativeCell)
  /-- Any number of links, in the order in which they were connected. -/
  | many (keyed : Bool) (links : List LinkId)

structure InputSlot where
  name : String
  type : String
  /-- The type that an incoming link has to fit. -/
  linkType : String
  optional : Bool
  feed : Feed

structure OutputSlot where
  name : String
  type : String
  links : List LinkId
  /-- The last result of evaluating the node. -/
  cached : Option NodeValue

structure Node where
  id : NodeId
  template : TemplateKey
  schemaName : String
  className : String
  title : String
  isRoot : Bool
  /-- The value of a value node; a schema node has none. -/
  cell : Option NativeCell
  x : Float
  y : Float
  width : Float
  height : Float
  inputs : List InputSlot
  outputs : List OutputSlot

structure Link where
  id : LinkId
  origin : NodeId
  originSlot : Nat
  target : NodeId
  targetSlot : Nat
  type : String
  /-- The key under which a keyed slot holds the link; empty when it has none. -/
  key : String

/-- A graph.  Links stand in ascending order of their numbers. -/
structure Graph where
  nodes : List Node
  links : List Link
  lastNode : NodeId
  lastLink : LinkId

namespace Feed

def links : Feed → List LinkId
  | .single link _ => link.toList
  | .many _ links => links

def collects : Feed → Bool
  | .single .. => false
  | .many .. => true

def native? : Feed → Option NativeCell
  | .single _ native => native
  | .many .. => none

/-- Let a link in: it takes the single place, or the last one. -/
def attach (link : LinkId) : Feed → Feed
  | .single _ native => .single (some link) native
  | .many keyed links => .many keyed (links ++ [link])

def detach (link : LinkId) : Feed → Feed
  | .single held native => .single (if held = some link then none else held) native
  | .many keyed links => .many keyed (links.filter fun other => other != link)

def setNative (value : Json) : Feed → Feed
  | .single link native => .single link (native.map fun cell => { cell with value := value })
  | feed => feed

def unlinked : Feed → Feed
  | .single _ native => .single none native
  | .many keyed _ => .many keyed []

def ofIntake : Intake → Feed
  | .single native => .single none (native.map fun kind => ⟨kind, kind.initialValue⟩)
  | .many keyed => .many keyed []

end Feed

namespace InputSlot

def ofSpec (spec : InputSpec) : InputSlot :=
  { name := spec.name
    type := spec.type
    linkType := spec.linkType
    optional := spec.optional
    feed := Feed.ofIntake spec.intake }

end InputSlot

namespace Node

def ofTemplate (template : NodeTemplate) (id : NodeId) : Node :=
  { id := id
    template := template.key
    schemaName := template.schemaName
    className := template.className
    title := template.title
    isRoot := template.isRoot
    cell := template.valueKind.map fun kind => ⟨kind, kind.initialValue⟩
    x := 0.0
    y := 0.0
    width := template.width
    height := template.height
    inputs := template.inputs.map InputSlot.ofSpec
    outputs := template.outputs.map fun spec => ⟨spec.name, spec.type, [], none⟩ }

/-- Whether the node holds a value and belongs to no schema. -/
def isValueNode (node : Node) : Bool :=
  node.cell.isSome

def inputIndex? (node : Node) (name : String) : Option Nat :=
  node.inputs.findIdx? fun slot => slot.name == name

def modifyFeed (node : Node) (slot : Nat) (change : Feed → Feed) : Node :=
  { node with
    inputs := node.inputs.modify slot fun input => { input with feed := change input.feed } }

def modifyOutput (node : Node) (slot : Nat) (change : List LinkId → List LinkId) : Node :=
  { node with
    outputs := node.outputs.modify slot fun output =>
      { output with links := change output.links } }

/-- Keep a result on the first output slot. -/
def remember (node : Node) (value : NodeValue) : Node :=
  { node with
    outputs := node.outputs.modify 0 fun output => { output with cached := some value } }

def nativeAt? (node : Node) (slot : Nat) : Option NativeCell :=
  node.inputs[slot]?.bind fun input => input.feed.native?

def unlinked (node : Node) : Node :=
  { node with
    inputs := node.inputs.map fun input => { input with feed := input.feed.unlinked }
    outputs := node.outputs.map fun output => { output with links := [] } }

end Node

namespace Graph

def empty : Graph :=
  ⟨[], [], 0, 0⟩

def findNode? (g : Graph) (id : NodeId) : Option Node :=
  g.nodes.find? fun node => node.id == id

def findLink? (g : Graph) (id : LinkId) : Option Link :=
  g.links.find? fun link => link.id == id

def linksOf (g : Graph) (id : NodeId) : List LinkId :=
  (g.links.filter fun link => link.origin == id || link.target == id).map Link.id

def modifyNode (g : Graph) (id : NodeId) (change : Node → Node) : Graph :=
  { g with nodes := g.nodes.map fun node => if node.id = id then change node else node }

def insertLink (link : Link) : List Link → List Link
  | [] => [link]
  | other :: rest =>
      if link.id < other.id then link :: other :: rest
      else if link.id = other.id then link :: rest
      else other :: insertLink link rest

/-- List a link in the graph and in both its slots. -/
def attach (g : Graph) (link : Link) : Graph :=
  let listed := { g with links := insertLink link g.links }
  (listed.modifyNode link.origin fun node =>
    node.modifyOutput link.originSlot fun links => links ++ [link.id]).modifyNode
      link.target fun node => node.modifyFeed link.targetSlot (Feed.attach link.id)

/-- Strike a link from the graph and from both its slots. -/
def detach (g : Graph) (link : Link) : Graph :=
  let struck := { g with links := g.links.filter fun other => other.id != link.id }
  (struck.modifyNode link.origin fun node =>
    node.modifyOutput link.originSlot fun links =>
      links.filter fun other => other != link.id).modifyNode
      link.target fun node => node.modifyFeed link.targetSlot (Feed.detach link.id)

/-- The next number of a counter, which counts in signed 64-bit numbers. -/
def nextId (last : Int) : Int :=
  (last + 1).bmod (2 ^ 64)

/-- Raise the counters to given numbers; they never fall. -/
def raiseCounters (g : Graph) (node : NodeId) (link : LinkId) : Graph :=
  { g with lastNode := max g.lastNode node, lastLink := max g.lastLink link }

end Graph

end SlotGraph
