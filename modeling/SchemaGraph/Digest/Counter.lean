import SchemaGraph.Digest.Basic

/-!
# Digests from a counter

The levels that a digest may still enter can be kept in a counter, which is taken down before a
nested schema is entered and put up again behind it. The recursion is the same whatever else a
computation on the counter can do; it is given the counter's operations.

* `Counter`: the operations on a counter.
* `DataType.takeDigest`, `Field.takeDigest`: the digests of types and fields, given what a reference
  contributes and what it does to the counter.
* `Heap.enterWith`: what a record type contributes, and how it uses the counter.
* `Heap.takeDigest`: the digest of a schema, a field or a type.
-/

namespace SchemaGraph

/-- The operations on a counter of levels. -/
structure Counter (m : Type → Type) where
  /-- How many levels are left. -/
  read : m Nat
  /-- Take the counter down by one level. -/
  lower : m Unit
  /-- Put the counter up by one level. -/
  raise : m Unit
  /-- What is done where schemas are entered from within each other deeper than was foreseen. -/
  beyond : m UInt64

variable {m : Type → Type} [Monad m]

namespace DataType

variable {ρ : Type}

mutual

/-- The digest of a type, given what a reference contributes and what it does to the counter. -/
def takeDigest (enter : ρ → m UInt64) : DataType ρ → m UInt64
  | .basic b => pure b.digest
  | .array t => return Fnv.mix (Fnv.ofString "ARRAY") (← t.takeDigest enter)
  | .map t => return Fnv.mix (Fnv.ofString "MAP") (← t.takeDigest enter)
  | .choice ts => takeDigests enter (Fnv.ofString "CHOICE") ts
  | .record s => enter s

/-- Mix the digests of the types of a list into a state, in order. -/
def takeDigests (enter : ρ → m UInt64) (state : UInt64) : List (DataType ρ) → m UInt64
  | [] => pure state
  | t :: ts => do
    let digest ← t.takeDigest enter
    takeDigests enter (Fnv.mix state digest) ts

end

end DataType

namespace Field

variable {ρ : Type}

/-- The digest of a field by itself. -/
def takeDigest (enter : ρ → m UInt64) (f : Field ρ) : m UInt64 :=
  return Fnv.mix (Fnv.ofString f.name) (← f.dataType.takeDigest enter)

/-- Mix the names and types of the fields of a list into a state, in order. -/
def takeDigests (enter : ρ → m UInt64) (state : UInt64) : List (Field ρ) → m UInt64
  | [] => pure state
  | f :: fs => do
    let digest ← f.dataType.takeDigest enter
    takeDigests enter (Fnv.mix (Fnv.mix state (Fnv.ofString f.name)) digest) fs

end Field

namespace Heap

/-- What a record type contributes, if schemas are entered from within each other no deeper than
`depth`. -/
def enterWith (counter : Counter m) (h : Heap) : (depth : Nat) → Handle → m UInt64
  | 0, _ => counter.beyond
  | depth + 1, s => do
    if (← counter.read) = 0 then
      return nestedSentinel
    counter.lower
    let nested ← Field.takeDigests (h.enterWith counter depth) fieldListSeed (h.fields s)
    counter.raise
    return Fnv.mix (Fnv.ofString "RECORD") nested

/-- The digest of a subject, given what a record type contributes and what it does to the
counter. -/
def takeDigest (h : Heap) (enter : Handle → m UInt64) : Subject → m UInt64
  | .schema s => Field.takeDigests enter fieldListSeed (h.fields s)
  | .field f => f.takeDigest enter
  | .type t => t.takeDigest enter

end Heap

end SchemaGraph
