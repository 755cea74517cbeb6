import SchemaGraph.DataType.Basic
import SchemaGraph.Text.Structural

/-!
# Writing data types

* `DataType.text`: the short form: the upper-case name with its parameters. A record type shows
  only its name, since the nested schema may lead back to the place of the type.
* `DataType.describe`: the structural form, given the structural form of a nested schema.
-/

namespace SchemaGraph

namespace BasicType

/-- A name, followed by a format where there is one. -/
private def formatted (name : String) : Option String → String
  | none => name
  | some format => name ++ ":" ++ format

/-- The short form. -/
def text (b : BasicType) : String :=
  match b with
  | .decimal precision scale =>
    "DECIMAL(" ++ toString precision.toNat ++ "," ++ toString scale.toNat ++ ")"
  | .date format | .time format | .timestamp format => formatted b.name format
  | .enum symbols => Text.enclosed "ENUM[" "]" symbols
  | _ => b.name

private def describeFormat (format : Option String) : List (String × String) :=
  [("format", Text.optional (format.map Text.quoted))]

/-- The structural form. -/
def describe : BasicType → String
  | .boolean => "Boolean"
  | .byte => "Byte"
  | .short => "Short"
  | .int => "Int"
  | .long => "Long"
  | .bigInt => "BigInt"
  | .float => "Float"
  | .double => "Double"
  | .decimal precision scale =>
    Text.structured "Decimal"
      [("precision", toString precision.toNat), ("scale", toString scale.toNat)]
  | .char => "Char"
  | .string => "String"
  | .date format => Text.structured "Date" (describeFormat format)
  | .time format => Text.structured "Time" (describeFormat format)
  | .timestamp format => Text.structured "Timestamp" (describeFormat format)
  | .uuid => "Uuid"
  | .enum symbols =>
    Text.structured "Enum" [("symbols", Text.sequence (symbols.map Text.quoted))]

end BasicType

namespace DataType

variable {ρ : Type}

mutual

/-- The short form. -/
def text : DataType ρ → String
  | .basic b => b.text
  | .array t => "ARRAY[" ++ t.text ++ "]"
  | .map t => "MAP[" ++ t.text ++ "]"
  | .choice ts => Text.enclosed "CHOICE[" "]" (texts ts)
  | .record _ => "RECORD"

/-- The short forms of the types of a list. -/
def texts : List (DataType ρ) → List String
  | [] => []
  | t :: ts => t.text :: texts ts

end

mutual

/-- The structural form, given that of a nested schema. -/
def describe (describeSchema : ρ → String) : DataType ρ → String
  | .basic b => b.describe
  | .array t => Text.applied "Array" (t.describe describeSchema)
  | .map t => Text.applied "Map" (t.describe describeSchema)
  | .choice ts => Text.applied "Choice" (Text.sequence (descriptions describeSchema ts))
  | .record s => Text.applied "Record" (describeSchema s)

/-- The structural forms of the types of a list. -/
def descriptions (describeSchema : ρ → String) : List (DataType ρ) → List String
  | [] => []
  | t :: ts => t.describe describeSchema :: descriptions describeSchema ts

end

end DataType

end SchemaGraph
