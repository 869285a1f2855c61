import SlotGraph.Double.Rounding
import SlotGraph.Text.Basic

/-!
# Numerals at the front of a text

Reading the longest numeral that a text begins with, whatever follows it: signed
integers in base ten, and floating-point numerals in decimal or hexadecimal form
together with the spellings of infinity and of values that are not numbers.
-/

namespace SlotGraph

namespace Text

def digit? (base : Nat) (c : Char) : Option Nat :=
  let value :=
    if c.isDigit then c.toNat - '0'.toNat
    else if 'a' ≤ c ∧ c ≤ 'f' then c.toNat - 'a'.toNat + 10
    else if 'A' ≤ c ∧ c ≤ 'F' then c.toNat - 'A'.toNat + 10
    else 16
  if value < base then some value else none

def takeDigits (base : Nat) : List Char → List Nat × List Char
  | [] => ([], [])
  | c :: rest =>
      match digit? base c with
      | some d => (d :: (takeDigits base rest).1, (takeDigits base rest).2)
      | none => ([], c :: rest)

/-- The number that digits denote, the most significant first. -/
def ofDigits (base : Nat) (digits : List Nat) : Nat :=
  digits.foldl (fun value d => value * base + d) 0

/-- An optional sign: whether it is a minus, and what follows it. -/
def takeSign : List Char → Bool × List Char
  | '-' :: rest => (true, rest)
  | '+' :: rest => (false, rest)
  | text => (false, text)

def leadingInteger? (text : List Char) : Option (Bool × Nat) :=
  let signed := takeSign (trimStart text)
  match takeDigits 10 signed.2 with
  | ([], _) => none
  | (digits, _) => some (signed.1, ofDigits 10 digits)

/-- The leading integer, brought into the signed 64-bit range at its nearer end. -/
def leadingInt64? (text : List Char) : Option Int :=
  (leadingInteger? text).map fun (negative, size) =>
    if negative then max (-(size : Int)) (-2 ^ 63) else min (size : Int) (2 ^ 63 - 1)

/--
The leading integer as an unsigned 64-bit number.  A minus sign counts backwards
from `2 ^ 64`; a magnitude beyond 64 bits is no such number.
-/
def leadingUInt64? (text : List Char) : Option Nat :=
  (leadingInteger? text).bind fun (negative, size) =>
    if 2 ^ 64 ≤ size then none
    else if negative then some ((2 ^ 64 - size) % 2 ^ 64)
    else some size

/--
The double nearest to `mantissa * radix ^ exponent`.  Exponents far outside the
range of doubles are settled before any power is taken.
-/
def scaledDouble (negative : Bool) (radix mantissa : Nat) (exponent : Int) : Float :=
  if mantissa = 0 ∨ exponent < -1100 - (mantissa.log2 + 1 : Nat) then
    Double.ofBits negative 0
  else if 1100 < exponent then
    Double.infinity negative
  else
    Double.ofQuotient negative
      (scale mantissa radix exponent) (scale 1 radix (-exponent))

/-- An exponent behind its mark, as in `e-7`; zero when there is none. -/
def exponentPart (mark : Char) : List Char → Int
  | [] => 0
  | c :: rest =>
      if c.toLower = mark then
        let signed := takeSign rest
        let size := ofDigits 10 (takeDigits 10 signed.2).1
        if signed.1 then -(size : Int) else size
      else
        0

def takeFraction (base : Nat) : List Char → List Nat × List Char
  | '.' :: rest => takeDigits base rest
  | text => ([], text)

/-- How the digits of a floating-point numeral are to be read. -/
structure NumeralForm where
  base : Nat
  /-- What one step of the exponent multiplies by. -/
  radix : Nat
  /-- How many exponent steps one digit is worth. -/
  perDigit : Nat
  mark : Char

/-- Decimal numerals, as in `6.02e23`. -/
def NumeralForm.decimal : NumeralForm :=
  ⟨10, 10, 1, 'e'⟩

/-- Hexadecimal numerals behind `0x`, as in `0x1.8p3`. -/
def NumeralForm.hexadecimal : NumeralForm :=
  ⟨16, 2, 4, 'p'⟩

def NumeralForm.read? (form : NumeralForm) (negative : Bool) (text : List Char) :
    Option Float :=
  let whole := takeDigits form.base text
  let fraction := takeFraction form.base whole.2
  let digits := whole.1 ++ fraction.1
  if digits.isEmpty then
    none
  else
    some (scaledDouble negative form.radix (ofDigits form.base digits)
      (exponentPart form.mark fraction.2 - form.perDigit * fraction.1.length))

def beginsWithWord (word : List Char) (text : List Char) : Bool :=
  word.isPrefixOf (text.map Char.toLower)

def leadingDouble? (text : List Char) : Option Float :=
  let signed := takeSign (trimStart text)
  let body := signed.2
  if beginsWithWord ['i', 'n', 'f'] body then
    some (Double.infinity signed.1)
  else if beginsWithWord ['n', 'a', 'n'] body then
    some Double.nan
  else if beginsWithWord ['0', 'x'] body then
    match NumeralForm.hexadecimal.read? signed.1 (body.drop 2) with
    | some value => some value
    | none => NumeralForm.decimal.read? signed.1 body
  else
    NumeralForm.decimal.read? signed.1 body

end Text

end SlotGraph
