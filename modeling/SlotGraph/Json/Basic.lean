import SlotGraph.Power

/-!
# JSON values

The dynamic values that documents, native slots and settings hold.  Integers and
floating-point numbers are different kinds of number, and the members of an
object stand in ascending order of their keys.
-/

namespace SlotGraph

/--
A JSON value.  The integer written `-0` is kept apart from `0`: it has the same
value, but it counts as written with a sign.
-/
inductive Json where
  | null
  | bool (b : Bool)
  | int (n : Int)
  | minusZero
  | float (x : Float)
  | str (s : String)
  | arr (items : List Json)
  | obj (members : List (String × Json))
deriving Inhabited

namespace Json

/-- Put a member into its place by key; an earlier member of that key gives way. -/
def insertMember (key : String) (value : Json) :
    List (String × Json) → List (String × Json)
  | [] => [(key, value)]
  | (k, v) :: rest =>
      if key < k then (key, value) :: (k, v) :: rest
      else if key = k then (key, value) :: rest
      else (k, v) :: insertMember key value rest

/-- The object of some members given in any order; of one key the last counts. -/
def ofMembers (members : List (String × Json)) : Json :=
  .obj (members.foldl (fun sorted m => insertMember m.1 m.2 sorted) [])

/-- The members of an object; none for any other value. -/
def members : Json → List (String × Json)
  | .obj ms => ms
  | _ => []

def get? (value : Json) (key : String) : Option Json :=
  value.members.lookup key

def integer? : Json → Option Int
  | .int n => some n
  | .minusZero => some 0
  | _ => none

/-- An integer as a signed 64-bit number; from `2 ^ 63` on it counts from below. -/
def int64? (value : Json) : Option Int :=
  value.integer?.map fun n => n.bmod (2 ^ 64)

/-- An integer written without a sign. -/
def natural? : Json → Option Nat
  | .int n => if 0 ≤ n then some n.toNat else none
  | _ => none

def string? : Json → Option String
  | .str s => some s
  | _ => none

def items? : Json → Option (List Json)
  | .arr xs => some xs
  | _ => none

def isObject : Json → Bool
  | .obj _ => true
  | _ => false

def isStructured : Json → Bool
  | .arr _ | .obj _ => true
  | _ => false

def isNull : Json → Bool
  | .null => true
  | _ => false

def emptyObject : Json :=
  .obj []

def emptyArray : Json :=
  .arr []

mutual

def depth : Json → Nat
  | .arr xs => depthItems xs + 1
  | .obj ms => depthMembers ms + 1
  | _ => 0
termination_by structural value => value

def depthItems : List Json → Nat
  | [] => 0
  | x :: xs => max x.depth (depthItems xs)
termination_by structural xs => xs

def depthMembers : List (String × Json) → Nat
  | [] => 0
  | (_, x) :: ms => max x.depth (depthMembers ms)
termination_by structural ms => ms

end

end Json

end SlotGraph
