import SchemaGraph.Fnv
import SchemaGraph.Heap.Basic

/-!
# Digests of schemas

The digest of a schema is a hash of the names and types of its fields, in order. Nested schemas
are entered down to a fixed number of levels, and a record type below the last level contributes a
constant. Equal schemas unfold to the same tree at every depth, so they have the same digest,
even where they lead back to themselves in different ways.

* `DataType.digest`, `Field.digest`, `Field.digests`: the digests of types, fields and field
  lists, given what a reference contributes.
* `Heap.nestedDigest`: what a record type contributes when a number of levels is left.
* `Heap.digestSchema`, `Heap.digestField`, `Heap.digestType`: the digests with a number of levels.
* `Heap.structuralHash`: the digest of a schema with the fixed number of levels.
* `Subject`, `Heap.digest`: the digest of a schema, a field or a type.
-/

namespace SchemaGraph

/-- How many levels of nested schemas a digest enters. -/
def nestedDepth : Nat := 2

/-- The contribution of a record type below the last level. -/
def nestedSentinel : UInt64 := Fnv.ofString "recschema.record.nested"

/-- The state that the digest of a field list starts from. -/
def fieldListSeed : UInt64 := Fnv.ofString "recschema.fields"

/-- The digest of a type that holds no other type: its name, with its parameters mixed in. -/
def BasicType.digest (b : BasicType) : UInt64 :=
  let tag := Fnv.ofString b.name
  match b with
  | .decimal precision scale => Fnv.mix (Fnv.mix tag precision.toUInt64) scale.toUInt64
  | .date format | .time format | .timestamp format =>
    Fnv.mix tag ((format.map Fnv.ofString).getD 0)
  | .enum symbols => symbols.foldl (fun state symbol => Fnv.mix state (Fnv.ofString symbol)) tag
  | _ => tag

namespace DataType

variable {ρ : Type}

mutual

/-- The digest of a type, given what a reference contributes. -/
def digest (ofReference : ρ → UInt64) : DataType ρ → UInt64
  | .basic b => b.digest
  | .array t => Fnv.mix (Fnv.ofString "ARRAY") (t.digest ofReference)
  | .map t => Fnv.mix (Fnv.ofString "MAP") (t.digest ofReference)
  | .choice ts => digestAll ofReference (Fnv.ofString "CHOICE") ts
  | .record s => ofReference s

/-- Mix the digests of the types of a list into a state, in order. -/
def digestAll (ofReference : ρ → UInt64) (state : UInt64) : List (DataType ρ) → UInt64
  | [] => state
  | t :: ts => digestAll ofReference (Fnv.mix state (t.digest ofReference)) ts

end

end DataType

namespace Field

variable {ρ : Type}

/-- The digest of a field by itself: its name and its type. -/
def digest (ofReference : ρ → UInt64) (f : Field ρ) : UInt64 :=
  Fnv.mix (Fnv.ofString f.name) (f.dataType.digest ofReference)

/-- Mix the names and types of the fields of a list into a state, in order. -/
def absorbAll (ofReference : ρ → UInt64) (state : UInt64) (fields : List (Field ρ)) : UInt64 :=
  fields.foldl
    (fun state f =>
      Fnv.mix (Fnv.mix state (Fnv.ofString f.name)) (f.dataType.digest ofReference))
    state

def digests (ofReference : ρ → UInt64) (fields : List (Field ρ)) : UInt64 :=
  absorbAll ofReference fieldListSeed fields

end Field

namespace Heap

/-- What a record type contributes when `levels` levels of nested schemas may be entered. -/
def nestedDigest (h : Heap) : (levels : Nat) → Handle → UInt64
  | 0, _ => nestedSentinel
  | levels + 1, s =>
    Fnv.mix (Fnv.ofString "RECORD") (Field.digests (h.nestedDigest levels) (h.fields s))

/-- The digest of a schema that enters `levels` levels of nested schemas. -/
def digestSchema (h : Heap) (levels : Nat) (s : Handle) : UInt64 :=
  Field.digests (h.nestedDigest levels) (h.fields s)

def digestField (h : Heap) (levels : Nat) (f : Field Handle) : UInt64 :=
  f.digest (h.nestedDigest levels)

def digestType (h : Heap) (levels : Nat) (t : DataType Handle) : UInt64 :=
  t.digest (h.nestedDigest levels)

def structuralHash (h : Heap) (s : Handle) : UInt64 :=
  h.digestSchema nestedDepth s

end Heap

/-- What a digest may be taken of. -/
inductive Subject where
  | schema (s : Handle)
  | field (f : Field Handle)
  | type (t : DataType Handle)

/-- The digest of a subject that enters `levels` levels of nested schemas. -/
def Heap.digest (h : Heap) (levels : Nat) : Subject → UInt64
  | .schema s => h.digestSchema levels s
  | .field f => h.digestField levels f
  | .type t => h.digestType levels t

end SchemaGraph
