import Mathlib.Logic.Function.Iterate
import SchemaGraph.Recursion

/-!
# A search for a cycle step by step

The search goes on from a schema with the pending schemas as a stack: the references of a schema are
put on top in order, so that the last one is looked at first. A schema may be pending several times,
and the stack may grow.

* `Heap.look`, `Heap.cycleSearch`: one step, and the search after some number of steps.
-/

namespace SchemaGraph.Heap

/-- A search under way: the schemas that it has gone on from, and those that it has still to look
at, the next one first. -/
structure Search where
  visited : List Handle
  pending : List Handle

/-- The answer, once it is known. -/
def Search.answer? (target : Handle) (c : Search) : Option Bool :=
  match c.pending with
  | [] => some false
  | s :: _ => if s = target then some true else none

/-- Look at the next schema. Once the answer is known, nothing more happens. -/
def look (h : Heap) (target : Handle) (c : Search) : Search :=
  match c.pending with
  | [] => c
  | s :: pending =>
    if s = target then c
    else if s ∈ c.visited then ⟨c.visited, pending⟩
    else ⟨s :: c.visited, (h.references s).reverse ++ pending⟩

/-- The search for a cycle through a schema after some number of steps. -/
def cycleSearch (h : Heap) (s : Handle) (steps : Nat) : Search :=
  (h.look s)^[steps] ⟨[], (h.references s).reverse⟩

end SchemaGraph.Heap
