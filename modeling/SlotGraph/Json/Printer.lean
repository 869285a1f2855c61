import SlotGraph.Double.Shortest
import SlotGraph.Json.Basic

/-!
# Writing JSON text

The compact form has no blanks; the indented form puts every item and member on
a line of its own, two spaces deeper than the value that holds it.  Members
stand in the order of the object.
-/

namespace SlotGraph

namespace Json

/-- How floating-point numbers are laid out once their digits are known. -/
structure FloatLayout where
  /-- The least decimal exponent written positionally. -/
  positionalFrom : Int
  /-- The greatest decimal exponent written positionally. -/
  positionalTo : Int
  /-- The least number of exponent digits. -/
  exponentDigits : Nat

/--
Numbers from `0.0001` to below `10 ^ 15` are written positionally, with at least
one digit behind the point; an exponent has a sign and at least two digits.
-/
def floatLayout : FloatLayout :=
  ⟨-4, 14, 2⟩

/-- Digits with the point behind the first `count` of them, filled up with zeros. -/
def withPoint (digits : List Char) (count : Nat) : List Char :=
  let whole := digits.take count ++ List.replicate (count - digits.length) '0'
  let fraction := digits.drop count
  whole ++ '.' :: (if fraction.isEmpty then ['0'] else fraction)

def scientific (layout : FloatLayout) (digits : List Char) (exponent : Int) : List Char :=
  let size := Nat.toDigits 10 exponent.natAbs
  let padded := List.replicate (layout.exponentDigits - size.length) '0' ++ size
  let fraction := digits.drop 1
  digits.take 1 ++ (if fraction.isEmpty then [] else '.' :: fraction) ++
    'e' :: (if exponent < 0 then '-' else '+') :: padded

def decimalText (layout : FloatLayout) (d : Double.Decimal) : List Char :=
  let digits := Nat.toDigits 10 d.digits
  let exponent : Int := d.exponent + digits.length - 1
  if exponent < layout.positionalFrom ∨ layout.positionalTo < exponent then
    scientific layout digits exponent
  else if exponent < 0 then
    withPoint ('0' :: (List.replicate (-exponent - 1).toNat '0' ++ digits)) 1
  else
    withPoint digits (exponent + 1).toNat

/-- The text of a double; infinities and values that are not numbers are `null`. -/
def floatText (x : Float) : String :=
  if !Double.isFinite x then
    "null"
  else
    let size :=
      if Double.magnitudeBits x = 0 then ['0', '.', '0']
      else decimalText floatLayout (Double.shortest x)
    String.ofList (if Double.signBit x then '-' :: size else size)

def escapeChar (c : Char) : List Char :=
  if c = '"' then ['\\', '"']
  else if c = '\\' then ['\\', '\\']
  else if c = '\x08' then ['\\', 'b']
  else if c = '\x0c' then ['\\', 'f']
  else if c = '\n' then ['\\', 'n']
  else if c = '\r' then ['\\', 'r']
  else if c = '\t' then ['\\', 't']
  else if c < ' ' then
    ['\\', 'u', '0', '0', Nat.digitChar (c.toNat / 16), Nat.digitChar (c.toNat % 16)]
  else [c]

def quote (s : String) : String :=
  String.ofList ('"' :: (s.toList.flatMap escapeChar ++ ['"']))

def scalarText : Json → String
  | .null => "null"
  | .bool b => if b then "true" else "false"
  | .int n => toString n
  | .minusZero => "0"
  | .float x => floatText x
  | .str s => quote s
  | .arr _ => "[]"
  | .obj _ => "\x7b\x7d"

mutual

def render : Json → String
  | .arr xs => "[" ++ String.intercalate "," (renderItems xs) ++ "]"
  | .obj ms => "\x7b" ++ String.intercalate "," (renderMembers ms) ++ "\x7d"
  | value => value.scalarText
termination_by structural value => value

def renderItems : List Json → List String
  | [] => []
  | x :: xs => render x :: renderItems xs
termination_by structural xs => xs

def renderMembers : List (String × Json) → List String
  | [] => []
  | (key, x) :: ms => (quote key ++ ":" ++ render x) :: renderMembers ms
termination_by structural ms => ms

end

def newline (level : Nat) : String :=
  String.ofList ('\n' :: List.replicate (2 * level) ' ')

mutual

def renderAt (level : Nat) : Json → String
  | .arr [] => "[]"
  | .obj [] => "\x7b\x7d"
  | .arr xs =>
      "[" ++ String.intercalate "," (renderItemsAt (level + 1) xs) ++ newline level ++ "]"
  | .obj ms =>
      "\x7b" ++ String.intercalate "," (renderMembersAt (level + 1) ms) ++
        newline level ++ "\x7d"
  | value => value.scalarText
termination_by structural value => value

def renderItemsAt (level : Nat) : List Json → List String
  | [] => []
  | x :: xs => (newline level ++ renderAt level x) :: renderItemsAt level xs
termination_by structural xs => xs

def renderMembersAt (level : Nat) : List (String × Json) → List String
  | [] => []
  | (key, x) :: ms =>
      (newline level ++ quote key ++ ": " ++ renderAt level x) ::
        renderMembersAt level ms
termination_by structural ms => ms

end

def renderIndented (value : Json) : String :=
  renderAt 0 value

end Json

end SlotGraph
