import SlotGraph.Json.Reader
import SlotGraph.Template.Basic

/-!
# Native values

A native slot holds whatever was put into it; its kind is settled when the value
is used.  An empty value, `null` or the empty text, is left out of an optional
slot and counts as the zero of the kind elsewhere.
-/

namespace SlotGraph

namespace NativeKind

def isCollection : NativeKind → Bool
  | .dict | .list | .set | .tuple => true
  | _ => false

def emptyCollection : NativeKind → Json
  | .dict => .emptyObject
  | _ => .emptyArray

/-- The value that an empty one counts as. -/
def zero : NativeKind → Json
  | .integer => .int 0
  | .float => .float 0.0
  | .boolean => .bool false
  | .string => .str ""
  | kind => kind.emptyCollection

def isBlankValue : Json → Bool
  | .null => true
  | .str s => s == ""
  | _ => false

/-- An integer from a value: numbers lose their fraction, text is read from the front. -/
def toInteger : Json → Json
  | .int n => .int n
  | .minusZero => .minusZero
  | .float x => .int (Double.truncate x)
  | .str s => .int ((Text.leadingInt64? (Text.trim s.toList)).getD 0)
  | _ => .int 0

/-- A floating-point number from a value; text is read from the front. -/
def toFloat : Json → Json
  | .int n => .float (Double.ofInt n)
  | .minusZero => .float 0.0
  | .float x => .float x
  | .str s => .float ((Text.leadingDouble? (Text.trim s.toList)).getD 0.0)
  | _ => .float 0.0

/-- A collection from a value; text is read as JSON. -/
def toCollection (kind : NativeKind) : Json → Json
  | .arr xs => .arr xs
  | .obj ms => .obj ms
  | .str s => (Json.parse? s).getD kind.emptyCollection
  | _ => kind.emptyCollection

/--
The value that a native slot contributes to its node; nothing when an optional
slot is left out.
-/
def coerceInput? (kind : NativeKind) (optional : Bool) (value : Json) : Option Json :=
  match kind, value with
  | .boolean, .bool b => some (.bool b)
  | .boolean, value =>
      if value.string? = some "true" then some (.bool true)
      else if optional then none
      else some (.bool false)
  | kind, value =>
      if isBlankValue value then
        if optional then none else some kind.zero
      else
        match kind with
        | .integer => some (toInteger value)
        | .float => some (toFloat value)
        | .string | .boolean => some value
        | .dict | .list | .set | .tuple => some (kind.toCollection value)

def coerceProperty (kind : NativeKind) (value : Json) : Json :=
  if kind = .boolean then
    match value with
    | .bool b => .bool b
    | .str s => .bool (s == "true")
    | _ => .bool false
  else if isBlankValue value then kind.zero
  else if kind = .integer then toInteger value
  else if kind = .float then toFloat value
  else if kind.isCollection then kind.toCollection value
  else value

end NativeKind

end SlotGraph
