import SchemaGraph.Digest.Counter

/-!
# Digests from one budget

Several digests can be taken one after another from one budget of levels: to enter a nested schema
takes one level out of it, to leave the schema puts the level back, and with no level left a record
type contributes the constant.

* `Budgeted`, `Budgeted.counter`: the budget.
* `Heap.enter`: what a record type contributes, and how it uses the budget.
* `Heap.take`: one digest from the budget.
* `freshDigest`: a digest from a budget of its own.
-/

namespace SchemaGraph

/-- A computation that uses the number of levels that are left. -/
abbrev Budgeted := StateM Nat

/-- No more levels are ever left than were foreseen, so that the bound does not show. -/
def Budgeted.counter : Counter Budgeted where
  read := get
  lower := modify (· - 1)
  raise := modify (· + 1)
  beyond := pure nestedSentinel

namespace Heap

/-- What a record type contributes when no more than `bound` levels are left. -/
def enter (h : Heap) (bound : Nat) (s : Handle) : Budgeted UInt64 :=
  h.enterWith Budgeted.counter bound s

/-- The digest of a subject, from the levels that are left. -/
def take (h : Heap) (subject : Subject) : Budgeted UInt64 := do
  h.takeDigest (h.enter (← get)) subject

/-- The digest of a schema, from the levels that are left. -/
def takeSchema (h : Heap) (s : Handle) : Budgeted UInt64 :=
  h.take (.schema s)

/-- The digest of a field, from the levels that are left. -/
def takeField (h : Heap) (f : Field Handle) : Budgeted UInt64 :=
  h.take (.field f)

/-- The digest of a type, from the levels that are left. -/
def takeType (h : Heap) (t : DataType Handle) : Budgeted UInt64 :=
  h.take (.type t)

end Heap

/-- A digest from a budget of its own. -/
def freshDigest (digest : Budgeted UInt64) : UInt64 :=
  (digest.run nestedDepth).1

end SchemaGraph
