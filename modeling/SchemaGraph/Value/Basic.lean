import SchemaGraph.Decimal.Binary64

/-!
# Values

The values that a field may have as its default, and that a data type accepts or refuses.

* `Value`: scalars, arrays, and maps with texts as keys.
* `Value.ofEntries`: a map from entries in any order; a later entry of a key replaces an earlier
  one, and the entries are kept in the order of their keys.
* `Value.beq_iff_eq`: `==` is equality. Numbers of different kinds are never equal, and floats are
  compared as words, so it is total.
-/

namespace SchemaGraph

/-- A scalar, an array or a map. -/
inductive Value where
  | boolean (value : Bool)
  | int (value : Int64)
  | float (value : Binary64)
  | string (value : String)
  | bytes (value : List UInt8)
  | array (items : List Value)
  | map (entries : List (String × Value))

namespace Value

/-- Neither an array nor a map. -/
def isScalar : Value → Bool
  | .array _ | .map _ => false
  | _ => true

/-! ## Maps -/

/-- Put an entry at its place in the order of keys, or over the entry that has its key. -/
def insertEntry (key : String) (value : Value) :
    List (String × Value) → List (String × Value)
  | [] => [(key, value)]
  | (k, v) :: rest =>
    if key < k then (key, value) :: (k, v) :: rest
    else if key = k then (key, value) :: rest
    else (k, v) :: insertEntry key value rest

/-- The map that has these entries put in one after another. -/
def ofEntries (entries : List (String × Value)) : Value :=
  .map (entries.foldl (fun done (key, value) => insertEntry key value done) [])

/-! ## Equality -/

mutual

/-- Same constructor and equal contents. -/
def equal : Value → Value → Bool
  | .boolean a, .boolean b => a == b
  | .int a, .int b => a == b
  | .float a, .float b => a.bits == b.bits
  | .string a, .string b => a == b
  | .bytes a, .bytes b => a == b
  | .array a, .array b => equalItems a b
  | .map a, .map b => equalEntries a b
  | _, _ => false

/-- Equal lengths and equal items, position by position. -/
def equalItems : List Value → List Value → Bool
  | [], [] => true
  | a :: as, b :: bs => equal a b && equalItems as bs
  | _, _ => false

/-- Equal lengths, keys and values, position by position. -/
def equalEntries : List (String × Value) → List (String × Value) → Bool
  | [], [] => true
  | (k, a) :: as, (l, b) :: bs => k == l && equal a b && equalEntries as bs
  | _, _ => false

end

mutual

theorem equal_iff (v w : Value) : equal v w = true ↔ v = w := by
  match v with
  | .boolean a => cases w <;> simp [equal]
  | .int a => cases w <;> simp [equal]
  | .float a =>
    cases w <;> simp [equal]
    case float b => cases a; cases b; simp
  | .string a => cases w <;> simp [equal]
  | .bytes a => cases w <;> simp [equal]
  | .array a => cases w <;> simp [equal, equalItems_iff a]
  | .map a => cases w <;> simp [equal, equalEntries_iff a]

theorem equalItems_iff (vs ws : List Value) : equalItems vs ws = true ↔ vs = ws := by
  match vs with
  | [] => cases ws <;> simp [equalItems]
  | v :: vs => cases ws <;> simp [equalItems, equal_iff v, equalItems_iff vs]

theorem equalEntries_iff (vs ws : List (String × Value)) :
    equalEntries vs ws = true ↔ vs = ws := by
  match vs with
  | [] => cases ws <;> simp [equalEntries]
  | (k, v) :: vs =>
    cases ws <;> simp [equalEntries, equal_iff v, equalEntries_iff vs, Prod.ext_iff, and_assoc]

end

instance : BEq Value := ⟨equal⟩

protected theorem beq_iff_eq {v w : Value} : (v == w) = true ↔ v = w :=
  equal_iff v w

instance : LawfulBEq Value where
  eq_of_beq h := Value.beq_iff_eq.mp h
  rfl := Value.beq_iff_eq.mpr rfl

instance : DecidableEq Value := fun v w =>
  decidable_of_iff _ (equal_iff v w)

end Value

end SchemaGraph
