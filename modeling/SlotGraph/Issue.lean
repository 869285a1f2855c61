import SlotGraph.Json.Printer

/-!
# Issues

Conditions that are reported and worked around, never raised: one constructor
for each cause, its kind, and its wording.
-/

namespace SlotGraph

/-- The kinds of issue, in the order in which they are counted. -/
inductive IssueKind where
  | parseSkip
  | typeMismatch
  | unresolvedReference
  | unknownNodeType
  | schemaRegistrationFailure
  | ambiguousMatch
deriving DecidableEq

inductive RegistrationFault where
  | emptyName
  | reservedName
  | nameTaken
  | noClasses
  | rootNotDeclared (root : String)

inductive Issue where
  /-- A line of a class body that reads as no field. -/
  | skippedLine (line : Nat) (text : String)
  /-- A link that the type gate refuses. -/
  | refusedLink (outputType targetTitle slot linkType : String)
  /-- A link whose origin has no entry in the built document. -/
  | linkWithoutIndex (origin : Int) (title : Option String)
  /-- A group element that is not an object. -/
  | elementNotObject (key : String) (index : Nat)
  /-- A value that no linked field can take. -/
  | unusableValue (value : Json) (field : String)
  /-- An element that is neither an index nor an object. -/
  | unusableElement (value : Json) (field : String)
  /-- An index without a node. -/
  | indexOutOfRange (index : Int) (field : String)
  /-- An inline object whose fields no class has. -/
  | noFittingClass (field : String)
  /-- A class without a node template. -/
  | missingTemplate (schema className : String)
  /-- A node of a graph document whose template is not known. -/
  | unknownNode (type : String)
  /-- A document key of a schema without root that names no class. -/
  | strayKey (key : String)
  /-- A document key that names neither a class nor a field of the root. -/
  | strayRootKey (key : String)
  /-- A refused schema. -/
  | registration (schema : String) (fault : RegistrationFault)
  /-- An inline object whose class was guessed by its field names. -/
  | guessedClass (chosen : String) (candidates : List String)

namespace IssueKind

def all : List IssueKind :=
  [.parseSkip, .typeMismatch, .unresolvedReference, .unknownNodeType,
    .schemaRegistrationFailure, .ambiguousMatch]

def name : IssueKind → String
  | .parseSkip => "parse_skip"
  | .typeMismatch => "type_mismatch"
  | .unresolvedReference => "unresolved_reference"
  | .unknownNodeType => "unknown_node_type"
  | .schemaRegistrationFailure => "schema_registration_failure"
  | .ambiguousMatch => "ambiguous_match"

end IssueKind

def RegistrationFault.message : RegistrationFault → String
  | .emptyName => "empty name"
  | .reservedName => "name is reserved"
  | .nameTaken => "already registered"
  | .noClasses => "no classes found"
  | .rootNotDeclared root => "root class '" ++ root ++ "' not declared"

namespace Issue

def kind : Issue → IssueKind
  | .skippedLine .. => .parseSkip
  | .refusedLink .. => .typeMismatch
  | .linkWithoutIndex .. | .elementNotObject .. | .unusableValue .. | .unusableElement ..
  | .indexOutOfRange .. | .noFittingClass .. => .unresolvedReference
  | .missingTemplate .. | .unknownNode .. | .strayKey .. | .strayRootKey .. =>
      .unknownNodeType
  | .registration .. => .schemaRegistrationFailure
  | .guessedClass .. => .ambiguousMatch

def message : Issue → String
  | .skippedLine line text => "line " ++ toString line ++ ": " ++ text
  | .refusedLink outputType targetTitle slot linkType =>
      "cannot connect " ++ outputType ++ " to " ++ targetTitle ++ "." ++ slot ++
        " (" ++ linkType ++ ")"
  | .linkWithoutIndex origin title =>
      "link from node " ++ toString origin ++ " (" ++ title.getD "missing node" ++
        ") has no index in this schema"
  | .elementNotObject key index =>
      key ++ "[" ++ toString index ++ "] is not an object; node left at defaults"
  | .unusableValue value field =>
      "value " ++ value.render ++ " cannot fill linked field '" ++ field ++ "'"
  | .unusableElement value field =>
      "element " ++ value.render ++ " of field '" ++ field ++
        "' is neither an index nor an object"
  | .indexOutOfRange index field =>
      "index " ++ toString index ++ " for field '" ++ field ++ "' resolves to no node"
  | .noFittingClass field =>
      "no class fits the inline object in field '" ++ field ++ "'"
  | .missingTemplate schema className => "no node type " ++ schema ++ "." ++ className
  | .unknownNode type => "unknown node type '" ++ type ++ "'"
  | .strayKey key => "document key '" ++ key ++ "' matches no class"
  | .strayRootKey key => "document key '" ++ key ++ "' matches no class or root field"
  | .registration schema fault => "schema '" ++ schema ++ "': " ++ fault.message
  | .guessedClass chosen candidates =>
      "embedded object matched by field names, using " ++ chosen ++ " (candidates: " ++
        String.intercalate ", " candidates ++ ")"

/-- How many issues there are of each kind, in the order of the kinds. -/
def countByKind (issues : List Issue) : List Nat :=
  IssueKind.all.map fun k => issues.countP fun issue => issue.kind == k

end Issue

end SlotGraph
