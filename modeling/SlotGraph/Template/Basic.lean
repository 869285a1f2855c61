import SlotGraph.Double.Rounding
import SlotGraph.Json.Basic

/-!
# Node templates

The blueprint of a node: its slots, its size, and whether it is the root of its
schema or holds one editable value.  An input slot either takes a single link,
with or without a native value to fall back on, or collects many links.
-/

namespace SlotGraph

/-- The kinds of value that a slot or a value node can hold by itself. -/
inductive NativeKind where
  | string
  | integer
  | boolean
  | float
  | dict
  | list
  | set
  | tuple
deriving DecidableEq

namespace NativeKind

def all : List NativeKind :=
  [.string, .integer, .boolean, .float, .dict, .list, .set, .tuple]

def name : NativeKind → String
  | .string => "str"
  | .integer => "int"
  | .boolean => "bool"
  | .float => "float"
  | .dict => "dict"
  | .list => "list"
  | .set => "set"
  | .tuple => "tuple"

def ofName? (name : String) : Option NativeKind :=
  all.find? fun kind => kind.name == name

/-- What a fresh slot holds; collections start as the text of an empty one. -/
def initialValue : NativeKind → Json
  | .string => .str ""
  | .integer => .int 0
  | .boolean => .bool false
  | .float => .float 0.0
  | .dict => .str "\x7b\x7d"
  | .list | .set | .tuple => .str "[]"

end NativeKind

inductive Intake where
  /-- One link, or a native value of some kind. -/
  | single (native : Option NativeKind)
  /-- Any number of links, each under a key if the slot is keyed. -/
  | many (keyed : Bool)
deriving DecidableEq

structure InputSpec where
  name : String
  /-- The type shown on the slot. -/
  type : String
  /-- The type that an incoming link has to fit. -/
  linkType : String
  optional : Bool
  intake : Intake

structure OutputSpec where
  name : String
  type : String

/-- Templates are numbered by schema and by class; schema zero holds the value nodes. -/
structure TemplateKey where
  schemaId : Nat
  classId : Nat
deriving DecidableEq

structure NodeTemplate where
  key : TemplateKey
  schemaName : String
  className : String
  isRoot : Bool
  /-- The kind of value that a value node holds. -/
  valueKind : Option NativeKind
  outputs : List OutputSpec
  inputs : List InputSpec
  width : Float
  height : Float

namespace NodeTemplate

/-- The title of the nodes of a class. -/
def titleOf (schemaName className : String) : String :=
  schemaName ++ "." ++ className

def title (template : NodeTemplate) : String :=
  titleOf template.schemaName template.className

end NodeTemplate

namespace NodeSize

def schemaWidth : Float := 200.0

def valueWidth : Float := 180.0

def leastHeight : Float := 80.0

def heightFor (slots : Nat) : Float :=
  let content := 30.0 + 25.0 * Double.ofInt slots
  if content > leastHeight then content else leastHeight

end NodeSize

end SlotGraph
