import SlotGraph.Json.Basic

/-!
# Evaluated values

What a node evaluates to: JSON data in which references to other nodes are told
apart from plain values.  Members of an object stand in the order in which they
were set.
-/

namespace SlotGraph

abbrev NodeId := Int

abbrev LinkId := Int

inductive NodeValue where
  /-- A null, boolean, number or string. -/
  | scalar (value : Json)
  | array (items : List NodeValue)
  | object (members : List (String × NodeValue))
  /-- The node whose output flows here. -/
  | ref (node : NodeId)
deriving Inhabited

namespace NodeValue

/-- Set a member; one that is there keeps its place. -/
def put (key : String) (value : NodeValue) :
    List (String × NodeValue) → List (String × NodeValue)
  | [] => [(key, value)]
  | (k, v) :: rest => if k = key then (key, value) :: rest else (k, v) :: put key value rest

/-- Some entries as members; of one key the last counts. -/
def putAll (entries : List (String × NodeValue)) : List (String × NodeValue) :=
  entries.foldl (fun members entry => put entry.1 entry.2 members) []

/-- The members of an object; none for any other value. -/
def members : NodeValue → List (String × NodeValue)
  | .object ms => ms
  | _ => []

def set (value : NodeValue) (key : String) (member : NodeValue) : NodeValue :=
  .object (put key member value.members)

def get? (value : NodeValue) (key : String) : Option NodeValue :=
  value.members.lookup key

mutual

def ofJson : Json → NodeValue
  | .arr xs => .array (ofItems xs)
  | .obj ms => .object (ofMembers ms)
  | value => .scalar value
termination_by structural value => value

def ofItems : List Json → List NodeValue
  | [] => []
  | x :: xs => ofJson x :: ofItems xs
termination_by structural xs => xs

def ofMembers : List (String × Json) → List (String × NodeValue)
  | [] => []
  | (key, x) :: ms => (key, ofJson x) :: ofMembers ms
termination_by structural ms => ms

end

mutual

/-- Plain data again, with a value in place of each reference. -/
def toJson (resolve : NodeId → Json) : NodeValue → Json
  | .scalar value => value
  | .array xs => .arr (toItems resolve xs)
  | .object ms => Json.ofMembers (toMembers resolve ms)
  | .ref node => resolve node
termination_by structural value => value

def toItems (resolve : NodeId → Json) : List NodeValue → List Json
  | [] => []
  | x :: xs => toJson resolve x :: toItems resolve xs
termination_by structural xs => xs

def toMembers (resolve : NodeId → Json) : List (String × NodeValue) → List (String × Json)
  | [] => []
  | (key, x) :: ms => (key, toJson resolve x) :: toMembers resolve ms
termination_by structural ms => ms

end

mutual

def refs : NodeValue → List NodeId
  | .scalar _ => []
  | .array xs => refsOfItems xs
  | .object ms => refsOfMembers ms
  | .ref node => [node]
termination_by structural value => value

def refsOfItems : List NodeValue → List NodeId
  | [] => []
  | x :: xs => refs x ++ refsOfItems xs
termination_by structural xs => xs

def refsOfMembers : List (String × NodeValue) → List NodeId
  | [] => []
  | (_, x) :: ms => refs x ++ refsOfMembers ms
termination_by structural ms => ms

end

end NodeValue

end SlotGraph
