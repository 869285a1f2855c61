import SlotGraph.Config.Groups
import SlotGraph.Graph.Evaluate
import SlotGraph.Issue
import SlotGraph.Schema.Mapping

/-!
# Building the config document

Each group of nodes is written under its document key, and the first root node
adds its other members at the top level.  A link to a grouped node is written as
the index of that node, a link to a value node as its value, and any other link
as `null` with an issue.  Evaluating changes nothing but the results kept on the
nodes, so a build is a value: the document, what is to be reported, and the
nodes whose results are to be kept.
-/

namespace SlotGraph

structure Build where
  config : Json
  issues : List Issue
  /-- The nodes that were evaluated. -/
  evaluated : List NodeId

namespace Build

/-- What a link from a node is written as. -/
def resolve (g : Graph) (schema : Schema) (id : NodeId) : Json :=
  match g.groupIndex? schema id with
  | some index => .int index
  | none =>
      match (g.findNode? id).bind Node.cell with
      | some cell => cell.output
      | none => .null

/-- What is reported for a link from a node. -/
def issueOf? (g : Graph) (schema : Schema) (id : NodeId) : Option Issue :=
  if (g.groupIndex? schema id).isSome || (g.findNode? id).any Node.isValueNode then
    none
  else
    some (.linkWithoutIndex id ((g.findNode? id).map Node.title))

/-- Whether a text has the outer brackets of a JSON array or object. -/
def looksStructured (text : List Char) : Bool :=
  match text.head?, text.getLast? with
  | some first, some last =>
      2 ≤ text.length &&
        ((first == '\x7b' && last == '\x7d') || (first == '[' && last == ']'))
  | _, _ => false

/-- The array or object that a text spells out. -/
def spelledOut? (text : String) : Option Json :=
  if looksStructured text.toList then Json.parse? text else none

/-- A member as it is written: text that spells out an array or object becomes one. -/
def writeMember (g : Graph) (schema : Schema) (value : NodeValue) : Json :=
  match value with
  | .scalar (.str text) => (spelledOut? text).getD (.str text)
  | value => value.toJson (resolve g schema)

def writeMembers (g : Graph) (schema : Schema) (members : List (String × NodeValue)) :
    List (String × Json) :=
  members.map fun member => (member.1, writeMember g schema member.2)

def memberRefs (members : List (String × NodeValue)) : List NodeId :=
  members.flatMap fun member => member.2.refs

def entry (g : Graph) (schema : Schema) (node : Node) : Json :=
  Json.ofMembers (writeMembers g schema (g.nodeValue node).members)

/-- A group as it is written: one entry may stand alone where no list is declared. -/
def groupValue (schema : Schema) (key : String) (entries : List Json) : Json :=
  match entries with
  | [single] => if schema.groupIsList key then .arr [single] else single
  | entries => .arr entries

def groupMembers (g : Graph) (schema : Schema) : List (String × Json) :=
  (g.groupOrder schema).map fun className =>
    let key := schema.keyOfClass className
    (key, groupValue schema key ((g.group schema className).map (entry g schema)))

/-- The members that the first root node adds: those whose names are no group keys. -/
def rootValues (g : Graph) (schema : Schema) : List (String × NodeValue) :=
  match (g.rootNodes schema).head? with
  | some root => (g.nodeValue root).members.filter fun member => !schema.isGroupKey member.1
  | none => []

def writtenRefs (g : Graph) (schema : Schema) : List NodeId :=
  ((g.groupOrder schema).flatMap fun className =>
    (g.group schema className).flatMap fun node => memberRefs (g.nodeValue node).members) ++
  memberRefs (rootValues g schema)

/-- The nodes that are evaluated: the grouped ones, the first root, and linked value nodes. -/
def evaluatedNodes (g : Graph) (schema : Schema) : List NodeId :=
  (g.groupedNodes schema).map Node.id ++
    ((g.rootNodes schema).head?.map Node.id).toList ++
    (writtenRefs g schema).filter fun id =>
      (g.groupIndex? schema id).isNone && (g.findNode? id).any Node.isValueNode

def ofGraph (g : Graph) (schema : Schema) : Build :=
  { config :=
      Json.ofMembers (groupMembers g schema ++ writeMembers g schema (rootValues g schema))
    issues := (writtenRefs g schema).filterMap (issueOf? g schema)
    evaluated := evaluatedNodes g schema }

def remembered (build : Build) (g : Graph) : Graph :=
  build.evaluated.foldl Graph.remember g

end Build

end SlotGraph
