import SlotGraph.Double.Rounding

/-!
# Shortest decimal of a double

The reals that round to a positive finite double form an interval around it.
Among the decimals inside, the one with the fewest digits is chosen; of two with
equally many digits the nearer one, and of two equally near the even one.
-/

namespace SlotGraph

namespace Double

/-- The decimal `digits * 10 ^ exponent`. -/
structure Decimal where
  digits : Nat
  exponent : Int
deriving DecidableEq

/-- Compare `a * 10 ^ i` with `n * 2 ^ j`. -/
def compareScaled (a : Nat) (i : Int) (n : Nat) (j : Int) : Ordering :=
  compare (scale (scale a 10 i) 2 (-j)) (scale (scale n 2 j) 10 (-i))

/--
Whether a decimal lies among the reals that round to the magnitude of `x`.  The
ends are halfway to the neighbours and belong to the even mantissa.
-/
def readsBackTo (x : Float) (d : Decimal) : Bool :=
  let below := 4 * mantissa x - (if narrowBelow x then 1 else 2)
  let above := 4 * mantissa x + 2
  let even := mantissa x % 2 == 0
  let low := compareScaled d.digits d.exponent below (exponent x - 2)
  let high := compareScaled d.digits d.exponent above (exponent x - 2)
  (low == .gt || (even && low == .eq)) && (high == .lt || (even && high == .eq))

/-- Count the steps of a power of ten, from `k` on, until it exceeds `m * 2 ^ q`. -/
def decadeFrom (m : Nat) (q : Int) : Nat → Int → Int
  | 0, k => k
  | steps + 1, k =>
      if compareScaled 1 k m q == .gt then k else decadeFrom m q steps (k + 1)

/--
The least `k` with `m * 2 ^ q < 10 ^ k`.  The search starts below the binary
logarithm times `0.301`, which is never too large by more than a few.
-/
def decade (m : Nat) (q : Int) : Int :=
  let bits : Int := (m.log2 : Int) + q
  decadeFrom m q 8 ((bits * 30103).fdiv 100000 - 2)

/-- The largest multiple of `10 ^ k` that is not above `m * 2 ^ q`, in units of `10 ^ k`. -/
def gridFloor (m : Nat) (q k : Int) : Nat :=
  scale (scale m 2 q) 10 (-k) / scale (scale 1 2 (-q)) 10 k

/-- The nearer of two neighbours on a grid; of two equally near the even one. -/
def nearer (x : Float) (k : Int) (floor : Nat) : Nat :=
  match compareScaled (2 * floor + 1) k (2 * mantissa x) (exponent x) with
  | .gt => floor
  | .lt => floor + 1
  | .eq => if floor % 2 = 0 then floor else floor + 1

/-- The decimal on the grid of `10 ^ k` that reads back to `x`, if one does. -/
def onGrid? (x : Float) (k : Int) : Option Decimal :=
  let floor := gridFloor (mantissa x) (exponent x) k
  match readsBackTo x ⟨floor, k⟩, readsBackTo x ⟨floor + 1, k⟩ with
  | true, true => some ⟨nearer x k floor, k⟩
  | true, false => some ⟨floor, k⟩
  | false, true => some ⟨floor + 1, k⟩
  | false, false => none

/-- The exact decimal of a magnitude. -/
def exact (x : Float) : Decimal :=
  if 0 ≤ exponent x then
    ⟨scale (mantissa x) 2 (exponent x), 0⟩
  else
    ⟨scale (mantissa x) 5 (-exponent x), exponent x⟩

def Decimal.stripZeros : Nat → Decimal → Decimal
  | 0, d => d
  | steps + 1, d =>
      if d.digits ≠ 0 ∧ d.digits % 10 = 0 then
        stripZeros steps ⟨d.digits / 10, d.exponent + 1⟩
      else
        d

/-- The shortest decimal that reads back to the magnitude of a finite `x`. -/
def shortest (x : Float) : Decimal :=
  let top := decade (mantissa x) (exponent x)
  let found := (List.range 17).findSome? fun n => onGrid? x (top - (n + 1 : Nat))
  (found.getD (exact x)).stripZeros 20

end Double

end SlotGraph
