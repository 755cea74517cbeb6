/-!
# Binary64 words

A binary64 number is kept as its 64-bit word, so that two numbers are equal exactly when their
words are: signed zeros differ, and a NaN equals itself and keeps its payload.

* `Binary64.reading`: what a word stands for.
* `Magnitude`: a finite non-negative number `significand * 2 ^ exponent`, with its rounding
  interval described on the quarter unit grid (`Magnitude.lowQuarters`, `Magnitude.highQuarters`).
-/

namespace SchemaGraph

/-- A binary64 number, as its word. -/
structure Binary64 where
  bits : UInt64
deriving DecidableEq

/-- A finite non-negative number `significand * 2 ^ exponent`. -/
structure Magnitude where
  significand : Nat
  exponent : Int
  /-- The gap to the next smaller number is half the gap to the next larger one. -/
  narrowBelow : Bool
deriving DecidableEq

/-- What a binary64 word stands for. -/
inductive Reading where
  | nan
  | infinite (negative : Bool)
  | finite (negative : Bool) (magnitude : Magnitude)
deriving DecidableEq

namespace Magnitude

/-- The lower end of the reals that round to this number, in units of `2 ^ (exponent - 2)`. -/
def lowQuarters (x : Magnitude) : Nat :=
  if x.narrowBelow then 4 * x.significand - 1 else 4 * x.significand - 2

/-- The upper end of the reals that round to this number, in units of `2 ^ (exponent - 2)`. -/
def highQuarters (x : Magnitude) : Nat :=
  4 * x.significand + 2

/-- Both ends round to this number exactly when the significand is even. -/
def endsIncluded (x : Magnitude) : Bool :=
  x.significand % 2 == 0

end Magnitude

namespace Binary64

def isNegative (x : Binary64) : Bool :=
  x.bits >>> 63 == 1

/-- The eleven exponent bits. -/
def exponentField (x : Binary64) : Nat :=
  ((x.bits >>> 52) &&& 0x7ff).toNat

/-- The 52 fraction bits. -/
def fractionField (x : Binary64) : Nat :=
  (x.bits &&& 0xfffffffffffff).toNat

/-- An exponent field of zero has no implicit leading bit; one of all ones is not finite. -/
def reading (x : Binary64) : Reading :=
  if x.exponentField = 0x7ff then
    if x.fractionField = 0 then .infinite x.isNegative else .nan
  else if x.exponentField = 0 then
    .finite x.isNegative ⟨x.fractionField, -1074, false⟩
  else
    .finite x.isNegative
      ⟨Nat.pow 2 52 + x.fractionField, (x.exponentField : Int) - 1075,
        x.fractionField == 0 && 1 < x.exponentField⟩

end Binary64

end SchemaGraph
