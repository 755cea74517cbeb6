import SchemaGraph.Field.AliasSet
import SchemaGraph.SchemaError

/-!
# Fields

A field is a named and typed slot of a record schema. It may have a default value, further names
and leave to be absent.

* `Field.checked`: a field is well formed if its name is not empty and its default value, if it
  has one, is a value of its type. The name is looked at first.
* `Field.renamed`: the same field under a new name. Only the new name is looked at: the default
  was a value of the type when the field was built.

That no two fields of a schema share a name or alias is the concern of `FieldTable`.
-/

namespace SchemaGraph

/-- A named and typed slot, whose type has references in `ρ`. -/
structure Field (ρ : Type) where
  name : String
  dataType : DataType ρ
  defaultValue : Option Value
  aliases : AliasSet
  nullable : Bool

namespace Field

variable {ρ σ : Type}

/-- The name and the aliases, in the order in which they are looked at. -/
def identifiers (f : Field ρ) : List String :=
  f.name :: f.aliases.toList

/-- Whether a text is the name or an alias of the field. -/
def answersTo (f : Field ρ) (text : String) : Bool :=
  f.identifiers.contains text

def checkName (name : String) : Except SchemaError Unit :=
  if name.isEmpty then .error .emptyName else .ok ()

/-- Refuse a default value that the type does not accept. -/
def checkDefault (accepts : DataType ρ → Value → Bool) (f : Field ρ) : Except SchemaError Unit :=
  match f.defaultValue with
  | none => .ok ()
  | some value =>
    if accepts f.dataType value then .ok ()
    else .error (.refusedDefault f.name value (f.dataType.mapReferences fun _ => ()))

/-- The field itself, if it is well formed. -/
def checked (accepts : DataType ρ → Value → Bool) (f : Field ρ) :
    Except SchemaError (Field ρ) := do
  checkName f.name
  checkDefault accepts f
  return f

/-- The field under a new name, with all else kept. -/
def renamed (f : Field ρ) (name : String) : Except SchemaError (Field ρ) := do
  checkName name
  return { f with name }

def mapReferences (g : ρ → σ) (f : Field ρ) : Field σ :=
  { f with dataType := f.dataType.mapReferences g }

/-- The short form: name and type. -/
def text (f : Field ρ) : String :=
  f.name ++ ": " ++ f.dataType.text

/-- The structural form, given that of a nested schema. -/
def describe (describeSchema : ρ → String) (f : Field ρ) : String :=
  Text.structured "RecordField"
    [("name", Text.quoted f.name),
      ("data_type", f.dataType.describe describeSchema),
      ("default_value", Text.optional (f.defaultValue.map Value.describe)),
      ("aliases", Text.textSet f.aliases.toList),
      ("nullable", if f.nullable then "true" else "false")]

end Field

end SchemaGraph
