import SchemaGraph.Decimal.Shortest

/-!
# Laying out a decimal

How a number is written, once its digits are known: `Layout` holds the decisions, and
`Binary64.text` writes a number under them.

* `Layout.plain`: always positional, a whole number has no point.
* `Layout.marked`: a whole number shows `.0`, and a number far from one shows an exponent.
-/

namespace SchemaGraph

/-- The decisions of a written form. The place of the point is counted from the first digit:
`0` for `0.5`, `1` for `5`, `-2` for `0.005`. -/
structure Layout where
  /-- The places of the point for which the digits are written out in full. -/
  positional : Int → Bool
  /-- What follows a whole number. -/
  wholeMark : String

namespace Layout

/-- Every number is written out in full, a whole one without a point. -/
def plain : Layout := ⟨fun _ => true, ""⟩

/-- Numbers from `10 ^ (-4)` up to, but without, `10 ^ 16` are written out, a whole one with
`.0`; the others show an exponent. -/
def marked : Layout := ⟨fun point => -3 ≤ point && point ≤ 16, ".0"⟩

end Layout

namespace Decimal

private def zeros (n : Nat) : String :=
  String.ofList (List.replicate n '0')

/-- The digits in full, with the point after the first `point` of them. -/
def positionalText (wholeMark : String) (digits : List Char) (point : Int) : String :=
  if point ≤ 0 then
    "0." ++ zeros (-point).toNat ++ String.ofList digits
  else if digits.length ≤ point.toNat then
    String.ofList digits ++ zeros (point.toNat - digits.length) ++ wholeMark
  else
    String.ofList (digits.take point.toNat) ++ "." ++ String.ofList (digits.drop point.toNat)

/-- One digit before the point, and the power of ten that this leaves. -/
def exponentText (digits : List Char) (point : Int) : String :=
  let tail := digits.drop 1
  String.ofList (digits.take 1) ++ (if tail.isEmpty then "" else "." ++ String.ofList tail)
    ++ "e" ++ toString (point - 1)

/-- A decimal under the decisions of a layout. -/
def text (layout : Layout) (d : Decimal) : String :=
  let digits := Nat.toDigits 10 d.digits
  let point : Int := digits.length + d.exponent
  if layout.positional point then positionalText layout.wholeMark digits point
  else exponentText digits point

end Decimal

namespace Binary64

/-- The shortest text that reads back, under a layout. A NaN shows neither sign nor payload. -/
def text (layout : Layout) (x : Binary64) : String :=
  match x.reading with
  | .nan => "NaN"
  | .infinite negative => if negative then "-inf" else "inf"
  | .finite negative magnitude =>
    (if negative then "-" else "") ++ magnitude.shortest.text layout

end Binary64

end SchemaGraph
