import SlotGraph.Power

/-!
# Nearest double

Between exact numbers and 64-bit floating point.  A quotient of natural numbers
is rounded to the nearest double, a tie going to the even mantissa; a finite
double is taken apart into `± mantissa * 2 ^ exponent`.  All of it is arithmetic
on natural numbers, so that a value can be followed bit by bit.
-/

namespace SlotGraph

namespace Double

def infinityBits : Nat :=
  0x7FF * 2 ^ 52

/-- The quotient rounded to the nearest natural number, a tie to the even one. -/
def divEven (num den : Nat) : Nat :=
  let quotient := num / den
  let twice := 2 * (num % den)
  if twice < den ∨ (twice = den ∧ quotient % 2 = 0) then quotient else quotient + 1

/-- The quotient `num / den * 2 ^ (-exponent)`, rounded to the nearest natural number. -/
def scaledMantissa (num den : Nat) (exponent : Int) : Nat :=
  divEven (scale num 2 (-exponent)) (scale den 2 exponent)

/--
The exponent of the last mantissa bit of the double nearest to a positive
quotient: the one that leaves 53 bits in front of it, or the least there is.
-/
def lastBitExponent (num den : Nat) : Int :=
  let guess : Int := (num.log2 : Int) - (den.log2 : Int) - 52
  let fits := scale den 2 (52 + guess) ≤ scale num 2 (-(52 + guess))
  max (if fits then guess else guess - 1) (-1074)

/--
The bits of the double nearest to `num / den`.  A mantissa that rounds up to
`2 ^ 53` carries into the exponent field by itself.
-/
def quotientBits (num den : Nat) : Nat :=
  if num = 0 ∨ den = 0 then
    0
  else
    let exponent := lastBitExponent num den
    min ((exponent + 1074).toNat * 2 ^ 52 + scaledMantissa num den exponent)
      infinityBits

/-- Magnitude bits under a sign. -/
def ofBits (negative : Bool) (magnitude : Nat) : Float :=
  Float.ofBits (UInt64.ofNat (if negative then 2 ^ 63 + magnitude else magnitude))

/-- The double nearest to `num / den` under a sign; infinite when it is too large. -/
def ofQuotient (negative : Bool) (num den : Nat) : Float :=
  ofBits negative (quotientBits num den)

def ofInt (n : Int) : Float :=
  ofQuotient (n < 0) n.natAbs 1

def infinity (negative : Bool) : Float :=
  ofBits negative infinityBits

def nan : Float :=
  ofBits false (infinityBits + 2 ^ 51)

def magnitudeBits (x : Float) : Nat :=
  x.toBits.toNat % 2 ^ 63

def signBit (x : Float) : Bool :=
  2 ^ 63 ≤ x.toBits.toNat

def isFinite (x : Float) : Bool :=
  magnitudeBits x < infinityBits

def isNaN (x : Float) : Bool :=
  infinityBits < magnitudeBits x

/-- The mantissa of a finite double, with the leading bit that normal doubles imply. -/
def mantissa (x : Float) : Nat :=
  let field := magnitudeBits x / 2 ^ 52
  let fraction := magnitudeBits x % 2 ^ 52
  if field = 0 then fraction else fraction + 2 ^ 52

/-- The exponent of the last mantissa bit of a finite double. -/
def exponent (x : Float) : Int :=
  (max (magnitudeBits x / 2 ^ 52) 1 : Nat) - 1075

/-- Whether the gap below the magnitude is half the gap above it. -/
def narrowBelow (x : Float) : Bool :=
  magnitudeBits x % 2 ^ 52 == 0 && 1 < magnitudeBits x / 2 ^ 52

/--
The integer part as a signed 64-bit number.  A value without one, infinite,
not a number or too large, gives the least such number.
-/
def truncate (x : Float) : Int :=
  let size := scale (mantissa x) 2 (exponent x) / scale 1 2 (-exponent x)
  let value : Int := if signBit x then -(size : Int) else size
  if isFinite x ∧ -2 ^ 63 ≤ value ∧ value < 2 ^ 63 then value else -2 ^ 63

end Double

end SlotGraph
