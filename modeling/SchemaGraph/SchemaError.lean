import SchemaGraph.DataType.Printer
import SchemaGraph.Value.Printer

/-!
# Failures of building fields and field lists

Comparison, hashing and look-up never fail; only building a field or installing a field list can.

* `SchemaError`: the causes.
* `SchemaError.message`: the wording of each cause.
-/

namespace SchemaGraph

/-- Why a field or a field list is refused. -/
inductive SchemaError where
  /-- A field has an empty name. -/
  | emptyName
  /-- The default value of a field is not a value of its type. The type is kept without the
  schemas that it refers to. -/
  | refusedDefault (field : String) (value : Value) (type : DataType Unit)
  /-- A name or alias occurs twice in a field list. -/
  | duplicateIdentifier (identifier : String)

namespace SchemaError

/-- Whether a single field is at fault, and not a field list. -/
def concernsField : SchemaError → Bool
  | .emptyName | .refusedDefault .. => true
  | .duplicateIdentifier _ => false

/-- The message of a cause. -/
def message : SchemaError → String
  | .emptyName => "Invalid field: field name cannot be empty"
  | .refusedDefault field value type =>
    "Invalid field: cannot set the default value for field '" ++ field ++ "' to " ++ value.text
      ++ " because that is not a valid value for data type " ++ type.text
  | .duplicateIdentifier identifier =>
    "Two fields are given with the same name (or alias) of '" ++ identifier ++ "'"

end SchemaError

end SchemaGraph
