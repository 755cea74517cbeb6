import SchemaGraph.Digest.Basic
import SchemaGraph.Equality

/-!
# Maps with schemas as keys

A table that finds a value by a schema. A stored key matches a schema if both have the same digest
and are equal. To insert under a key that matches keeps the stored key and replaces its value.

* `SchemaMap.insert`, `SchemaMap.find?`: the two operations.
* `SchemaMap.positions`: the table that has each schema of a list under its position.
-/

namespace SchemaGraph

/-- Keys with their values, in the order in which the keys came. -/
structure SchemaMap (β : Type) where
  entries : List (Handle × β)

namespace SchemaMap

variable {β : Type}

def empty : SchemaMap β := ⟨[]⟩

def size (m : SchemaMap β) : Nat :=
  m.entries.length

/-- Whether a stored key matches a schema. -/
def keyMatches (h : Heap) (key s : Handle) : Bool :=
  h.structuralHash s == h.structuralHash key && h.equalSchemas s key

/-- Put a value over that of the first key that matches, or a new entry behind the others. -/
def insertEntry (h : Heap) (s : Handle) (value : β) :
    List (Handle × β) → List (Handle × β)
  | [] => [(s, value)]
  | (key, old) :: rest =>
    if keyMatches h key s then (key, value) :: rest
    else (key, old) :: insertEntry h s value rest

/-- Put a value under a schema. -/
def insert (h : Heap) (m : SchemaMap β) (s : Handle) (value : β) : SchemaMap β :=
  ⟨insertEntry h s value m.entries⟩

/-- The value under a schema. -/
def find? (h : Heap) (m : SchemaMap β) (s : Handle) : Option β :=
  (m.entries.find? fun entry => keyMatches h entry.1 s).map Prod.snd

/-- The table that has each schema of a list under its position. -/
def positions (h : Heap) (keys : List Handle) : SchemaMap Nat :=
  keys.zipIdx.foldl (fun m (s, i) => m.insert h s i) empty

end SchemaMap

end SchemaGraph
