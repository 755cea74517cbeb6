import SchemaGraph.Decimal.Binary64

/-!
# The shortest decimal that reads back

A binary64 number is written with the fewest decimal digits that round to it again. Seen from the
decimal side: of the grids of multiples of `10 ^ k` the coarsest one that meets the rounding
interval is taken, and on it the point nearest to the number.

* `Magnitude.onGrid?`: the point of one grid, if the grid meets the interval.
* `Magnitude.shortest`: the point on the coarsest such grid.

On any grid that meets the interval, one of the two neighbours of the number lies in it, so only
those two are tried.
-/

namespace SchemaGraph

/-- The decimal number `digits * 10 ^ exponent`. -/
structure Decimal where
  digits : Nat
  exponent : Int
deriving DecidableEq

namespace Magnitude

/-- The common denominator of the grid `10 ^ k` and the quarter units of a number. -/
def gridUnit (x : Magnitude) (k : Int) : Nat :=
  Nat.pow 10 k.toNat * Nat.pow 2 (2 - x.exponent).toNat

/-- A count of quarter units, over the denominator `gridUnit`. -/
def overGrid (x : Magnitude) (k : Int) (quarters : Nat) : Nat :=
  quarters * Nat.pow 2 (x.exponent - 2).toNat * Nat.pow 10 (-k).toNat

/-- Whether the multiple `point` of `10 ^ k` rounds to the number. -/
def roundsBack (x : Magnitude) (k : Int) (point : Nat) : Bool :=
  let low := x.overGrid k x.lowQuarters
  let high := x.overGrid k x.highQuarters
  let place := point * x.gridUnit k
  if x.endsIncluded then low ≤ place && place ≤ high else low < place && place < high

/-- The multiple of `10 ^ k` that rounds to the number and lies nearest to it; of two that lie
equally near, the larger. -/
def onGrid? (x : Magnitude) (k : Int) : Option Decimal :=
  let value := x.overGrid k (4 * x.significand)
  let unit := x.gridUnit k
  let below := value / unit
  match x.roundsBack k below, x.roundsBack k (below + 1) with
  | true, true => some ⟨if 2 * value < (2 * below + 1) * unit then below else below + 1, k⟩
  | true, false => some ⟨below, k⟩
  | false, true => some ⟨below + 1, k⟩
  | false, false => none

/-- The number written out in full. -/
def exact (x : Magnitude) : Decimal :=
  ⟨x.significand * Nat.pow 2 x.exponent.toNat * Nat.pow 5 (-x.exponent).toNat,
    -((-x.exponent).toNat : Int)⟩

/-- The coarsest grid that can be needed: every finite number is below `10 ^ 309`. -/
def coarsest : Nat := 309

/-- The number of grids that can be needed: neighbouring numbers are never closer than
`4 * 10 ^ (-324)`, so the grid `10 ^ (-324)` always meets the interval. -/
def gridCount : Nat := coarsest + 325

/-- The shortest decimal that reads back, on the coarsest grid that has one. -/
def shortest (x : Magnitude) : Decimal :=
  if x.significand = 0 then ⟨0, 0⟩
  else
    ((List.range gridCount).findSome? fun (i : Nat) => x.onGrid? (coarsest - i)).getD x.exact

end Magnitude

end SchemaGraph
