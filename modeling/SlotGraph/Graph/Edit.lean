import SlotGraph.Graph.Basic
import SlotGraph.Issue
import SlotGraph.TypeExpr.Compatible

/-!
# Editing a graph

The changes that a host can make.  An operation that fails gives no graph, so
that the old one stays as it was.
-/

namespace SlotGraph

inductive LinkFault where
  | missingEndpoint
  | typeMismatch (outputType targetTitle slot linkType : String)

/-- What is reported when a link was not made: only a type mismatch is. -/
def LinkFault.issues : LinkFault → List Issue
  | .missingEndpoint => []
  | .typeMismatch outputType targetTitle slot linkType =>
      [.refusedLink outputType targetTitle slot linkType]

namespace Graph

def addNode (g : Graph) (template : NodeTemplate) (x y : Float) : NodeId × Graph :=
  let id := nextId g.lastNode
  (id,
    { g with
      nodes := g.nodes ++ [{ Node.ofTemplate template id with x := x, y := y }]
      lastNode := id })

def disconnect? (g : Graph) (id : LinkId) : Option (Link × Graph) :=
  (g.findLink? id).map fun link => (link, g.detach link)

/-- The graph without a link, whether it was there or not. -/
def dropLink (g : Graph) (id : LinkId) : Graph :=
  match g.findLink? id with
  | some link => g.detach link
  | none => g

def dropLinks (g : Graph) (ids : List LinkId) : Graph :=
  ids.foldl dropLink g

def removeLink? (g : Graph) (id : LinkId) : Option Graph :=
  (g.disconnect? id).map Prod.snd

def removeNode? (g : Graph) (id : NodeId) : Option Graph :=
  if (g.findNode? id).isNone then
    none
  else
    let bare := g.dropLinks (g.linksOf id)
    some { bare with nodes := bare.nodes.eraseP fun node => node.id == id }

/-- The link that a single-link slot holds, which a new one displaces. -/
def displaced (slot : InputSlot) : List LinkId :=
  if slot.feed.collects then [] else slot.feed.links

/--
Link an output slot to an input slot.  A slot for one link drops the link that it
had; a slot for many takes the new one last.
-/
def connect (g : Graph) (origin : NodeId) (originSlot : Nat) (target : NodeId)
    (targetSlot : Nat) : Except LinkFault (LinkId × Graph) :=
  match g.findNode? origin, g.findNode? target with
  | some originNode, some targetNode =>
      match originNode.outputs[originSlot]?, targetNode.inputs[targetSlot]? with
      | some output, some input =>
          if TypeExpr.textFits output.type input.linkType then
            let cleared := g.dropLinks (displaced input)
            let id := nextId cleared.lastLink
            .ok (id,
              { cleared with lastLink := id }.attach
                { id := id
                  origin := origin
                  originSlot := originSlot
                  target := target
                  targetSlot := targetSlot
                  type := output.type
                  key := "" })
          else
            .error (.typeMismatch output.type targetNode.title input.name input.linkType)
      | _, _ => .error .missingEndpoint
  | _, _ => .error .missingEndpoint

def setKey? (g : Graph) (id : LinkId) (key : String) : Option Graph :=
  if (g.findLink? id).isNone then
    none
  else
    some { g with
      links := g.links.map fun link => if link.id = id then { link with key := key } else link }

/-- Drop some links: how many of them there were, and the graph without them. -/
def clearLinks (g : Graph) (ids : List LinkId) : Nat × Graph :=
  ids.foldl
    (fun (count, h) id =>
      match h.removeLink? id with
      | some rest => (count + 1, rest)
      | none => (count, h))
    (0, g)

def clearInput (g : Graph) (id : NodeId) (slot : Nat) : Nat × Graph :=
  match (g.findNode? id).bind fun node => node.inputs[slot]? with
  | some input => g.clearLinks input.feed.links
  | none => (0, g)

/-- Drop the links into every slot of a node that collects many. -/
def clearCollected (g : Graph) (id : NodeId) : Nat × Graph :=
  match g.findNode? id with
  | some node =>
      g.clearLinks (node.inputs.flatMap fun input =>
        if input.feed.collects then input.feed.links else [])
  | none => (0, g)

def setNative? (g : Graph) (id : NodeId) (slot : Nat) (value : Json) : Option Graph :=
  if ((g.findNode? id).bind fun node => node.nativeAt? slot).isNone then
    none
  else
    some (g.modifyNode id fun node => node.modifyFeed slot (Feed.setNative value))

def setProperty? (g : Graph) (id : NodeId) (value : Json) : Option Graph :=
  if (g.findNode? id).any Node.isValueNode then
    some (g.modifyNode id fun node =>
      { node with cell := node.cell.map fun cell => { cell with value := value } })
  else
    none

/-- Remove all nodes and links; the counters stay. -/
def clear (g : Graph) : Graph :=
  { g with nodes := [], links := [] }

/-- Bring a node back under its own number, without links. -/
def restoreNode? (g : Graph) (node : Node) : Option Graph :=
  if node.id ≤ 0 ∨ (g.findNode? node.id).isSome then
    none
  else
    let raised := g.raiseCounters node.id 0
    some { raised with nodes := raised.nodes ++ [node.unlinked] }

/-- The input slot that a link enters, if both its ends exist. -/
def entered? (g : Graph) (link : Link) : Option InputSlot :=
  match g.findNode? link.origin, g.findNode? link.target with
  | some origin, some target =>
      if link.originSlot < origin.outputs.length then target.inputs[link.targetSlot]? else none
  | _, _ => none

/-- Bring a link back under its own number; types are not compared. -/
def restoreLink? (g : Graph) (link : Link) : Option Graph :=
  if link.id ≤ 0 ∨ (g.findLink? link.id).isSome then
    none
  else
    (g.entered? link).map fun input =>
      ((g.dropLinks (displaced input)).attach link).raiseCounters 0 link.id

end Graph

end SlotGraph
