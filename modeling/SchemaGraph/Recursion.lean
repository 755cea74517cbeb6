import SchemaGraph.Exploration
import SchemaGraph.Heap.Basic

/-!
# Recursive schemas

A schema is recursive if its own field types lead back to it, through any number of nested
schemas, arrays, maps and choices. A cycle further down that does not pass through the schema
itself does not count.

* `Heap.reaches`: whether one of some schemas is a target or leads to it.
* `Heap.isRecursive`: whether a schema leads to itself.
-/

namespace SchemaGraph.Heap

/-- Without an instance there are no references. -/
theorem references_eq_nil {h : Heap} {s : Handle} (hs : s ∉ h.handles) : h.references s = [] := by
  simp [references, fields_eq_nil hs]

/-- Whether one of the pending schemas is the target or leads to it, without going on from those
that were visited. -/
def reaches (h : Heap) (target : Handle) (visited : List Handle) : List Handle → Bool
  | [] => false
  | s :: pending =>
    if s = target then true
    else if s ∈ visited then h.reaches target visited pending
    else h.reaches target (s :: visited) (h.references s ++ pending)
termination_by pending => ((remaining h.handles visited).length, pending.length)
decreasing_by
  · exact .right _ (by simp)
  next unvisited =>
    by_cases inside : s ∈ h.handles
    · exact .left _ _ (length_remaining_lt inside unvisited)
    · rw [remaining_cons_of_not_mem inside, references_eq_nil inside]
      exact .right _ (by simp)

/-- Whether the field types of a schema lead back to it. -/
def isRecursive (h : Heap) (s : Handle) : Bool :=
  h.reaches s [] (h.references s)

end SchemaGraph.Heap
