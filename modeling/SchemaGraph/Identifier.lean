import SchemaGraph.Text.Structural

/-!
# Schema identifiers

An identifier names a schema in whatever registry produced it. It says nothing about the schema's
structure, and takes no part in the comparison or the hash of schemas.
-/

namespace SchemaGraph

/-- The name, number, version and branch of a schema, each of which may be absent. -/
structure Identifier where
  name : Option String
  number : Option Int64
  version : Option Int32
  branch : Option String
deriving DecidableEq

namespace Identifier

/-- Every part is absent. -/
def empty : Identifier := ⟨none, none, none, none⟩

def isEmpty (id : Identifier) : Bool :=
  id == empty

/-- The short form: the parts that are present, each after its mark. -/
def text (id : Identifier) : String :=
  if id.isEmpty then "<empty>"
  else
    id.name.getD ""
      ++ (id.number.map fun n => "@" ++ toString n.toInt).getD ""
      ++ (id.version.map fun n => ":" ++ toString n.toInt).getD ""
      ++ (id.branch.map fun b => "/" ++ b).getD ""

/-- The structural form. -/
def describe (id : Identifier) : String :=
  Text.structured "SchemaIdentifier"
    [("name", Text.optional (id.name.map Text.quoted)),
      ("identifier", Text.optional (id.number.map fun n => toString n.toInt)),
      ("version", Text.optional (id.version.map fun n => toString n.toInt)),
      ("branch", Text.optional (id.branch.map Text.quoted))]

end Identifier

end SchemaGraph
