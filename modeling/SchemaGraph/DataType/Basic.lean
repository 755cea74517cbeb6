/-!
# Data types

The type of a field. A record type refers to the schema of the nested record; what a reference is
stays open, so that the same types can be written with names, hold handles to schemas that are
shared and may lead back to where they are used, or hold finite trees.

* `BasicType`: the types that hold no other type.
* `DataType ρ`: basic types, containers, choices and records, with references in `ρ`.
* `DataType.references`: the references in a type, in the order in which they are met.
* `DataType.mapReferences`, `DataType.resolve`: replace every reference, surely or with a failure.
-/

namespace SchemaGraph

/-- A type that holds no other type. -/
inductive BasicType where
  | boolean
  | byte
  | short
  | int
  | long
  | bigInt
  | float
  | double
  | decimal (precision scale : UInt32)
  | char
  | string
  | date (format : Option String)
  | time (format : Option String)
  | timestamp (format : Option String)
  | uuid
  | enum (symbols : List String)
deriving DecidableEq

/-- A type with references to nested schemas in `ρ`. -/
inductive DataType (ρ : Type) where
  | basic (type : BasicType)
  /-- A list of elements of one type. -/
  | array (element : DataType ρ)
  /-- A map from texts to values of one type. -/
  | map (value : DataType ρ)
  /-- A value of any one of the options. -/
  | choice (options : List (DataType ρ))
  /-- A nested record. -/
  | record (schema : ρ)

/-- The name without parameters. -/
def BasicType.name : BasicType → String
  | .boolean => "BOOLEAN"
  | .byte => "BYTE"
  | .short => "SHORT"
  | .int => "INT"
  | .long => "LONG"
  | .bigInt => "BIGINT"
  | .float => "FLOAT"
  | .double => "DOUBLE"
  | .decimal _ _ => "DECIMAL"
  | .char => "CHAR"
  | .string => "STRING"
  | .date _ => "DATE"
  | .time _ => "TIME"
  | .timestamp _ => "TIMESTAMP"
  | .uuid => "UUID"
  | .enum _ => "ENUM"

namespace DataType

variable {ρ σ ε : Type}

/-- The name without parameters. -/
def name : DataType ρ → String
  | .basic b => b.name
  | .array _ => "ARRAY"
  | .map _ => "MAP"
  | .choice _ => "CHOICE"
  | .record _ => "RECORD"

/-- The reference of a record type. -/
def record? : DataType ρ → Option ρ
  | .record s => some s
  | _ => none

mutual

/-- The references in a type, in the order in which they are met. -/
def references : DataType ρ → List ρ
  | .basic _ => []
  | .array t => t.references
  | .map t => t.references
  | .choice ts => referencesAll ts
  | .record s => [s]

/-- The references in the types of a list. -/
def referencesAll : List (DataType ρ) → List ρ
  | [] => []
  | t :: ts => t.references ++ referencesAll ts

end

mutual

/-- Replace every reference. -/
def mapReferences (f : ρ → σ) : DataType ρ → DataType σ
  | .basic b => .basic b
  | .array t => .array (t.mapReferences f)
  | .map t => .map (t.mapReferences f)
  | .choice ts => .choice (mapReferencesAll f ts)
  | .record s => .record (f s)

/-- Replace every reference in the types of a list. -/
def mapReferencesAll (f : ρ → σ) : List (DataType ρ) → List (DataType σ)
  | [] => []
  | t :: ts => t.mapReferences f :: mapReferencesAll f ts

end

mutual

/-- Replace every reference; the first one that has no replacement is the failure. -/
def resolve (f : ρ → Except ε σ) : DataType ρ → Except ε (DataType σ)
  | .basic b => .ok (.basic b)
  | .array t => .array <$> t.resolve f
  | .map t => .map <$> t.resolve f
  | .choice ts => .choice <$> resolveAll f ts
  | .record s => .record <$> f s

/-- Replace every reference in the types of a list. -/
def resolveAll (f : ρ → Except ε σ) : List (DataType ρ) → Except ε (List (DataType σ))
  | [] => .ok []
  | t :: ts => do
    let t ← t.resolve f
    let ts ← resolveAll f ts
    return t :: ts

end

theorem referencesAll_eq_flatMap (ts : List (DataType ρ)) :
    referencesAll ts = ts.flatMap references := by
  induction ts with
  | nil => rfl
  | cons t ts ih => simp [referencesAll, ih]

end DataType

end SchemaGraph
