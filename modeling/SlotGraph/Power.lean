/-!
# Powers

Sizes of words and mantissas are written as powers of numerals.  Such a power is
the computing one of the core library in every module, also where a larger library
that brings its own is in scope.
-/

namespace SlotGraph

attribute [default_instance 20000] instPowNat

/-- `n * base ^ exponent`, where a negative exponent counts as zero. -/
def scale (n base : Nat) (exponent : Int) : Nat :=
  n * base.pow exponent.toNat

end SlotGraph
