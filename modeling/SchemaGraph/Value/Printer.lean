import SchemaGraph.Decimal.Layout
import SchemaGraph.Text.Structural
import SchemaGraph.Value.Basic

/-!
# Writing values

* `Value.text`: the short form for messages. Floats are written out in full, texts are put
  between quotation marks as they are, and bytes show only how many they are.
* `Value.describe`: the structural form.
-/

namespace SchemaGraph.Value

mutual

/-- The short form. -/
def text : Value → String
  | .boolean b => if b then "true" else "false"
  | .int i => toString i.toInt
  | .float x => x.text .plain
  | .string s => "\"" ++ s ++ "\""
  | .bytes content => "<" ++ toString content.length ++ " bytes>"
  | .array items => Text.enclosed "[" "]" (itemTexts items)
  | .map entries => Text.enclosed "\x7b" "\x7d" (entryTexts entries)

/-- The short forms of the items. -/
def itemTexts : List Value → List String
  | [] => []
  | v :: vs => text v :: itemTexts vs

/-- The short forms of the entries; a key is written as it is. -/
def entryTexts : List (String × Value) → List String
  | [] => []
  | (k, v) :: vs => (k ++ ": " ++ text v) :: entryTexts vs

end

mutual

/-- The structural form. -/
def describe : Value → String
  | .boolean b => Text.applied "Boolean" (if b then "true" else "false")
  | .int i => Text.applied "Int" (toString i.toInt)
  | .float x => Text.applied "Float" (x.text .marked)
  | .string s => Text.applied "String" (Text.quoted s)
  | .bytes content =>
    Text.applied "Bytes" (Text.sequence (content.map fun byte => toString byte.toNat))
  | .array items => Text.applied "Array" (Text.sequence (itemDescriptions items))
  | .map entries => Text.applied "Map" (Text.textMap (entryDescriptions entries))

/-- The structural forms of the items. -/
def itemDescriptions : List Value → List String
  | [] => []
  | v :: vs => describe v :: itemDescriptions vs

/-- The structural forms of the values, beside their keys. -/
def entryDescriptions : List (String × Value) → List (String × String)
  | [] => []
  | (k, v) :: vs => (k, describe v) :: entryDescriptions vs

end

end SchemaGraph.Value
