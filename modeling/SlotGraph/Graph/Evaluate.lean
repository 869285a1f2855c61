import SlotGraph.Graph.Basic
import SlotGraph.Template.Coercion

/-!
# Evaluating nodes

A schema node evaluates to an object with one member for each slot that holds
something: a reference for a link, an array or object of references for many, or
the native value.  A value node evaluates to its value.
-/

namespace SlotGraph

namespace NativeCell

def output (cell : NativeCell) : Json :=
  cell.kind.coerceProperty cell.value

end NativeCell

namespace Graph

def linkedRefs (g : Graph) (links : List LinkId) : List NodeValue :=
  links.filterMap fun id => (g.findLink? id).map fun link => .ref link.origin

/-- The key of a link in a keyed slot: its own, or else its position. -/
def entryKey (link : Link) (position : Nat) : String :=
  if link.key = "" then toString position else link.key

/-- The references that some links carry, each under its key. -/
def keyedRefs (g : Graph) (links : List LinkId) : List (String × NodeValue) :=
  NodeValue.putAll (links.zipIdx.filterMap fun entry =>
    (g.findLink? entry.1).map fun link => (entryKey link entry.2, .ref link.origin))

/-- What an input slot contributes to its node. -/
def slotValue? (g : Graph) (slot : InputSlot) : Option NodeValue :=
  match slot.feed with
  | .many true links =>
      let entries := g.keyedRefs links
      if entries.isEmpty && slot.optional then none else some (.object entries)
  | .many false links =>
      let refs := g.linkedRefs links
      if refs.isEmpty && slot.optional then none else some (.array refs)
  | .single held native =>
      match held.bind g.findLink? with
      | some link => some (.ref link.origin)
      | none =>
          (native.bind fun cell => cell.kind.coerceInput? slot.optional cell.value).map
            NodeValue.ofJson

/-- The members that some input slots contribute; of one name the last counts. -/
def slotMembers (g : Graph) (slots : List InputSlot) : List (String × NodeValue) :=
  NodeValue.putAll (slots.filterMap fun slot =>
    (g.slotValue? slot).map fun value => (slot.name, value))

def nodeValue (g : Graph) (node : Node) : NodeValue :=
  match node.cell with
  | some cell => NodeValue.ofJson cell.output
  | none => .object (g.slotMembers node.inputs)

def value? (g : Graph) (id : NodeId) : Option NodeValue :=
  (g.findNode? id).map g.nodeValue

def remember (g : Graph) (id : NodeId) : Graph :=
  match g.value? id with
  | some value => g.modifyNode id fun node => node.remember value
  | none => g

def cached? (g : Graph) (id : NodeId) : Option NodeValue :=
  (g.findNode? id).bind fun node => node.outputs.head?.bind OutputSlot.cached

end Graph

end SlotGraph
