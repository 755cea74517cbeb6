import SchemaGraph.Digest.Counter

/-!
# Digests from a meter

The way to nested schemas leads along the references of the heap, also in circles, and only the
counter makes it turn back. Here the recursion is written in a way that shows what could go wrong:
it fails where a level is taken out of an empty counter, and it is cut off, without a result, where
schemas are entered from within each other deeper than was foreseen.

* `Metered`, `Metered.counter`: a counter that can be overdrawn.
* `Heap.meterRecord`, `Heap.meter`: the digests of record types and of all else.
-/

namespace SchemaGraph

/-- A level was to be taken out of an empty counter. -/
inductive Overdraft where
  | noLevelLeft

/-- A computation that uses a counter of levels. It may fail, and it may be cut off. -/
abbrev Metered := StateT Nat (ExceptT Overdraft Option)

namespace Metered

/-- No result. -/
def cutOff {α : Type} : Metered α := fun _ => ExceptT.mk none

/-- Take the counter down by one level. -/
def takeLevel : Metered Unit := do
  match ← get with
  | 0 => throw .noLevelLeft
  | levels + 1 => set levels

/-- Put the counter up by one level. -/
def putLevel : Metered Unit :=
  modify (· + 1)

def counter : Counter Metered where
  read := get
  lower := takeLevel
  raise := putLevel
  beyond := cutOff

end Metered

namespace Heap

/-- What a record type contributes, if schemas are entered from within each other no deeper than
`depth`. -/
def meterRecord (h : Heap) (depth : Nat) (s : Handle) : Metered UInt64 :=
  h.enterWith Metered.counter depth s

/-- The digest of a subject, from the counter. -/
def meter (h : Heap) (depth : Nat) (subject : Subject) : Metered UInt64 :=
  h.takeDigest (h.meterRecord depth) subject

end Heap

end SchemaGraph
