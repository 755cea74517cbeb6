import SchemaGraph.Heap.Basic

/-!
# Writing schemas

Both forms of a schema are shallow: a nested schema shows only as `RECORD`, since it may lead back
to the schema itself.
-/

namespace SchemaGraph.Heap

/-- The short form: the fields with their types. -/
def text (h : Heap) (s : Handle) : String :=
  Text.enclosed "RecordSchema[" "]" ((h.fields s).map Field.text)

/-- The structural form: the identifier, and the short forms of the fields. -/
def describe (h : Heap) (s : Handle) : String :=
  Text.structured "RecordSchema"
    [("identifier", (h.identifier s).describe),
      ("fields", Text.sequence ((h.fields s).map fun f => Text.quoted f.text))]

/-- The structural form of a type. -/
def describeType (h : Heap) (t : DataType Handle) : String :=
  t.describe h.describe

/-- The structural form of a field. -/
def describeField (h : Heap) (f : Field Handle) : String :=
  f.describe h.describe

end SchemaGraph.Heap
