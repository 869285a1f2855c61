import SlotGraph.Graph.Basic
import SlotGraph.Schema.Basic

/-!
# Nodes by class

The nodes of one schema, apart from root nodes, fall into groups by class in
graph order.  The position of a node in its group is the index under which links
to it are written.
-/

namespace SlotGraph

namespace Graph

def belongsTo (schema : Schema) (node : Node) : Bool :=
  !node.isValueNode && node.schemaName == schema.name

def rootNodes (g : Graph) (schema : Schema) : List Node :=
  g.nodes.filter fun node => belongsTo schema node && node.isRoot

def groupedNodes (g : Graph) (schema : Schema) : List Node :=
  g.nodes.filter fun node => belongsTo schema node && !node.isRoot

/-- The nodes of one class, in graph order. -/
def group (g : Graph) (schema : Schema) (className : String) : List Node :=
  (g.groupedNodes schema).filter fun node => node.className == className

/-- The classes that have nodes, in the order of their first ones. -/
def groupOrder (g : Graph) (schema : Schema) : List String :=
  ((g.groupedNodes schema).map Node.className).eraseDups

/-- The position of a grouped node among the nodes of its class. -/
def groupIndex? (g : Graph) (schema : Schema) (id : NodeId) : Option Nat :=
  ((g.groupedNodes schema).find? fun node => node.id == id).bind fun node =>
    (g.group schema node.className).findIdx? fun other => other.id == id

end Graph

end SlotGraph
