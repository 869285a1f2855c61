import SlotGraph.Config.Build
import SlotGraph.Config.Import
import SlotGraph.Graph.Document
import SlotGraph.Schema.Parser

/-!
# Sessions

A session holds the registered schemas with their templates, one graph, and the
issues that its operations have reported.  Every operation gives its result and
the session after it; an operation that fails leaves everything but the issues
as it was.
-/

namespace SlotGraph

/--
A schema and the number that its templates carry.  The number has 32 bits in the program; it
is unbounded here, which is the same for the first `2 ^ 32 - 1` registrations of a session.
-/
structure RegisteredSchema where
  id : Nat
  schema : Schema

structure Session where
  schemas : List RegisteredSchema
  /-- In the program it runs over to `0` behind the number `2 ^ 32 - 1`; here it does not. -/
  nextSchemaId : Nat
  registry : Registry
  graph : Graph
  issues : List Issue
  layout : ImportLayout

/-- What a host can ask about a schema. -/
structure SchemaInfo where
  name : String
  indexType : String
  rootType : String
  classNames : List String

namespace Session

def start (layout : ImportLayout) : Session :=
  { schemas := []
    nextSchemaId := 1
    registry := Registry.initial
    graph := Graph.empty
    issues := []
    layout := layout }

def report (s : Session) (issues : List Issue) : Session :=
  { s with issues := s.issues ++ issues }

def findSchema? (s : Session) (name : String) : Option Schema :=
  (s.schemas.find? fun registered => registered.schema.name == name).map
    RegisteredSchema.schema

/--
The schema that a source makes under a name, with the lines that were passed over;
or why it is refused, after the same lines if the source was read at all.
-/
def readSchema (s : Session) (name source indexType rootType : String) :
    List Issue × Except RegistrationFault Schema :=
  if name = "" then ([], .error .emptyName)
  else if name = NodeTemplate.nativeSchema then ([], .error .reservedName)
  else if (s.findSchema? name).isSome then ([], .error .nameTaken)
  else
    let (classes, issues) := Schema.parseClasses source
    if classes.isEmpty then (issues, .error .noClasses)
    else if rootType ≠ "" ∧ !SchemaClass.declared classes rootType then
      (issues, .error (.rootNotDeclared rootType))
    else
      let indexType := if indexType = "" then Schema.defaultIndexType else indexType
      (issues, .ok (Schema.ofClasses name indexType rootType classes))

/-- Register a schema, all or nothing. -/
def register (s : Session) (name source indexType rootType : String) : Bool × Session :=
  match s.readSchema name source indexType rootType with
  | (issues, .error fault) => (false, s.report (issues ++ [.registration name fault]))
  | (issues, .ok schema) =>
      (true,
        { s.report issues with
          schemas := s.schemas ++ [⟨s.nextSchemaId, schema⟩]
          nextSchemaId := s.nextSchemaId + 1
          registry := s.registry.add schema s.nextSchemaId })

def withoutNodes (g : Graph) (ids : List NodeId) : Graph :=
  ids.foldl (fun g id => (g.removeNode? id).getD g) g

/-- Drop a schema, its templates and every node made from it. -/
def removeSchema (s : Session) (name : String) : Bool × Session :=
  match s.schemas.find? fun registered => registered.schema.name == name with
  | some registered =>
      let doomed :=
        (s.graph.nodes.filter fun node => node.schemaName == name).map Node.id
      (true,
        { s with
          schemas := s.schemas.filter fun other => other.schema.name != name
          registry := s.registry.remove registered.id
          graph := withoutNodes s.graph doomed })
  | none => (false, s)

def schemaNames (s : Session) : List String :=
  s.schemas.map fun registered => registered.schema.name

def schemaInfo? (s : Session) (name : String) : Option SchemaInfo :=
  (s.findSchema? name).map fun schema =>
    { name := schema.name
      indexType := schema.indexType
      rootType := schema.rootType
      classNames := schema.classes.map SchemaClass.name }

/-- Make a node of a class; value nodes belong to the schema `Native`. -/
def createNode (s : Session) (schemaName className : String) (x y : Float) :
    Option NodeId × Session :=
  match s.registry.find? schemaName className with
  | some template =>
      let (id, graph) := s.graph.addNode template x y
      (some id, { s with graph := graph })
  | none => (none, s.report [.missingTemplate schemaName className])

def connect (s : Session) (origin : NodeId) (originSlot : Nat) (target : NodeId)
    (targetSlot : Nat) : Option LinkId × Session :=
  match s.graph.connect origin originSlot target targetSlot with
  | .ok (id, graph) => (some id, { s with graph := graph })
  | .error fault => (none, s.report fault.issues)

/-- The result of a change of the graph that may fail. -/
def change (s : Session) (result : Option Graph) : Bool × Session :=
  match result with
  | some graph => (true, { s with graph := graph })
  | none => (false, s)

def removeNode (s : Session) (id : NodeId) : Bool × Session :=
  s.change (s.graph.removeNode? id)

def removeLink (s : Session) (id : LinkId) : Bool × Session :=
  s.change (s.graph.removeLink? id)

def evaluate (s : Session) (id : NodeId) : Option NodeValue × Session :=
  (s.graph.value? id, { s with graph := s.graph.remember id })

def buildConfig (s : Session) (name : String) : Option Json × Session :=
  match s.findSchema? name with
  | some schema =>
      let build := Build.ofGraph s.graph schema
      (some build.config, { s.report build.issues with graph := build.remembered s.graph })
  | none => (none, s)

/--
The schema to import with: that of the name, or for an empty name the first with
a root class, or else the first.
-/
def importSchema? (s : Session) (name : String) : Option Schema :=
  if name ≠ "" then s.findSchema? name
  else
    ((s.schemas.find? fun registered => registered.schema.rootType != "") <|>
      s.schemas.head?).map RegisteredSchema.schema

/-- Add the nodes of a config document, or replace the graph by them. -/
def importConfig (s : Session) (document : Json) (name : String) (replace : Bool) :
    Option Import.Summary × Session :=
  match s.importSchema? name, document with
  | some schema, .obj members =>
      let base := if replace then s.graph.clear else s.graph
      let (summary, done) := Import.run ⟨schema, s.registry, s.layout⟩ base members
      (some summary, { s.report done.issues with graph := done.graph })
  | _, _ => (none, s)

/-- Build the config of a schema and import it again into the same schema. -/
def rebuild (s : Session) (name : String) (replace : Bool) :
    Option (Json × Option Import.Summary) × Session :=
  match s.buildConfig name with
  | (some config, s) =>
      let (summary, s) := s.importConfig config name replace
      (some (config, summary), s)
  | (none, s) => (none, s)

def loadGraph (s : Session) (document : Json) : Bool × Session :=
  match Graph.load? s.registry s.graph document with
  | some (graph, issues) => (true, { s.report issues with graph := graph })
  | none => (false, s)

def clearIssues (s : Session) : Session :=
  { s with issues := [] }

end Session

end SlotGraph
