import SchemaGraph.Field.Basic

/-!
# Corresponding references

Two types, or two lists of fields, of the same shape have the same references but for what the
references are. Taking them side by side gives the pairs of references at corresponding places.

* `DataType.correspondence?`: the pairs for two types, if all else agrees.
* `Field.correspondence?`: the same for two fields, which must also agree on name, nullability,
  aliases and default value.
* `Field.correspondences?`: the same for two lists of fields of equal lengths.
-/

namespace SchemaGraph

variable {ρ σ : Type}

namespace DataType

mutual

/-- The pairs of references at corresponding places, if all else agrees. -/
def correspondence? : DataType ρ → DataType σ → Option (List (ρ × σ))
  | .basic a, .basic b => if a = b then some [] else none
  | .array t, .array u => t.correspondence? u
  | .map t, .map u => t.correspondence? u
  | .choice ts, .choice us => correspondences? ts us
  | .record r, .record s => some [(r, s)]
  | _, _ => none

/-- The pairs for two lists of types, taken position by position. -/
def correspondences? : List (DataType ρ) → List (DataType σ) → Option (List (ρ × σ))
  | [], [] => some []
  | t :: ts, u :: us => do
    let first ← t.correspondence? u
    let rest ← correspondences? ts us
    return first ++ rest
  | _, _ => none

end

end DataType

namespace Field

/-- The pairs of references at corresponding places of two fields, if all else agrees. -/
def correspondence? (f : Field ρ) (g : Field σ) : Option (List (ρ × σ)) :=
  if f.name = g.name ∧ f.nullable = g.nullable ∧ f.aliases = g.aliases
      ∧ f.defaultValue = g.defaultValue then
    f.dataType.correspondence? g.dataType
  else none

/-- The pairs for two lists of fields, taken position by position. -/
def correspondences? : List (Field ρ) → List (Field σ) → Option (List (ρ × σ))
  | [], [] => some []
  | f :: fs, g :: gs => do
    let first ← f.correspondence? g
    let rest ← correspondences? fs gs
    return first ++ rest
  | _, _ => none

theorem correspondences?_nil_left {gs : List (Field σ)} {pairs : List (ρ × σ)}
    (h : correspondences? [] gs = some pairs) : pairs = [] := by
  cases gs <;> simp_all [correspondences?]

theorem correspondences?_nil_right {fs : List (Field ρ)} {pairs : List (ρ × σ)}
    (h : correspondences? fs ([] : List (Field σ)) = some pairs) : pairs = [] := by
  cases fs <;> simp_all [correspondences?]

end Field

end SchemaGraph
