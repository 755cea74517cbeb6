import SchemaGraph.Correspondence
import SchemaGraph.Exploration
import SchemaGraph.Heap.Basic

/-!
# Equality of schemas

Two schemas are equal if no path of look-ups tells them apart. Schemas form arbitrary graphs, so a
comparison cannot simply go down field by field. It keeps a record of the pairs of schemas that it
has begun to compare: to meet a recorded pair again brings no new evidence of a difference, so the
pair is passed over, and a pair of one schema with itself needs no look at all. One difference
anywhere makes the answer `false`.

* `Heap.compareAll`: compare pairs of schemas, starting from a record, and return the answer with
  the record as it is then. Each pair is recorded at most once, which is why this comes to an end.
* `Heap.compareSchemas`, `Heap.compareFields`, `Heap.compareTypes`: one comparison that takes
  part in a common record.
* `Heap.equalSchemas`, `Heap.equalFields`, `Heap.equalTypes`: one comparison by itself.
* `Heap.compareInTurn`: fields are compared one after another, up to a difference.
* `Comparison`, `Heap.compare`, `Heap.answers`: comparisons of all kinds, and their answers in turn.
-/

namespace SchemaGraph

/-- Two schemas that are to be compared, in this order. -/
abbrev HandlePair := Handle × Handle

namespace Heap

def handlePairs (h : Heap) : List HandlePair :=
  h.handles.flatMap fun l => h.handles.map fun r => (l, r)

theorem mem_handlePairs {h : Heap} {pair : HandlePair} :
    pair ∈ h.handlePairs ↔ pair.1 ∈ h.handles ∧ pair.2 ∈ h.handles := by
  obtain ⟨l, r⟩ := pair
  simp [handlePairs]

/-- A pair without an instance on one side leads to no further pairs. -/
theorem correspondences?_eq_nil {h : Heap} {pair : HandlePair} {further : List HandlePair}
    (outside : pair ∉ h.handlePairs)
    (found : Field.correspondences? (h.fields pair.1) (h.fields pair.2) = some further) :
    further = [] := by
  rw [mem_handlePairs, Decidable.not_and_iff_or_not] at outside
  rcases outside with hl | hr
  · rw [fields_eq_nil hl] at found
    exact Field.correspondences?_nil_left found
  · rw [fields_eq_nil hr] at found
    exact Field.correspondences?_nil_right found

/-- Compare pairs of schemas, one after another; the pairs that a pair leads to come first. -/
def compareAll (h : Heap) (recorded : List HandlePair) :
    List HandlePair → Bool × List HandlePair
  | [] => (true, recorded)
  | pair :: pending =>
    if pair.1 = pair.2 ∨ pair ∈ recorded then h.compareAll recorded pending
    else
      match _ : Field.correspondences? (h.fields pair.1) (h.fields pair.2) with
      | none => (false, pair :: recorded)
      | some further => h.compareAll (pair :: recorded) (further ++ pending)
termination_by pending => ((remaining h.handlePairs recorded).length, pending.length)
decreasing_by
  · exact .right _ (by simp)
  next unmet found =>
    by_cases inside : pair ∈ h.handlePairs
    · exact .left _ _ (length_remaining_lt inside fun mem => unmet (.inr mem))
    · rw [remaining_cons_of_not_mem inside, correspondences?_eq_nil inside found]
      exact .right _ (by simp)

/-! ## Comparisons in a common record -/

def compareSchemas (h : Heap) (recorded : List HandlePair) (l r : Handle) :
    Bool × List HandlePair :=
  h.compareAll recorded [(l, r)]

def compareTypes (h : Heap) (recorded : List HandlePair) (t u : DataType Handle) :
    Bool × List HandlePair :=
  match t.correspondence? u with
  | none => (false, recorded)
  | some pairs => h.compareAll recorded pairs

def compareFields (h : Heap) (recorded : List HandlePair) (f g : Field Handle) :
    Bool × List HandlePair :=
  match f.correspondence? g with
  | none => (false, recorded)
  | some pairs => h.compareAll recorded pairs

/-! ## Comparisons by themselves -/

/-- Whether two schemas are equal. -/
def equalSchemas (h : Heap) (l r : Handle) : Bool :=
  (h.compareSchemas [] l r).1

def equalTypes (h : Heap) (t u : DataType Handle) : Bool :=
  (h.compareTypes [] t u).1

def equalFields (h : Heap) (f g : Field Handle) : Bool :=
  (h.compareFields [] f g).1

/-! ## Comparisons in turn -/

/-- Go on with the record that a comparison leaves, unless it has found a difference. -/
def andThen (run : Bool × List HandlePair) (next : List HandlePair → Bool × List HandlePair) :
    Bool × List HandlePair :=
  if run.1 then next run.2 else run

/-- Compare fields with fields, one after another in a common record, up to a difference. -/
def compareInTurn (h : Heap) (recorded : List HandlePair) :
    List (Field Handle × Field Handle) → Bool × List HandlePair
  | [] => (true, recorded)
  | (f, g) :: rest =>
    andThen (h.compareFields recorded f g) fun record => h.compareInTurn record rest

end Heap

/-- Two schemas, fields or types that are compared. -/
inductive Comparison where
  | schemas (l r : Handle)
  | fields (f g : Field Handle)
  | types (t u : DataType Handle)

namespace Heap

/-- A comparison that starts from a record, and the record that it leaves. -/
def compare (h : Heap) (recorded : List HandlePair) : Comparison → Bool × List HandlePair
  | .schemas l r => h.compareSchemas recorded l r
  | .fields f g => h.compareFields recorded f g
  | .types t u => h.compareTypes recorded t u

/-- A comparison by itself. -/
def equal (h : Heap) : Comparison → Bool
  | .schemas l r => h.equalSchemas l r
  | .fields f g => h.equalFields f g
  | .types t u => h.equalTypes t u

/-- The answers of comparisons that are made one after another, where each starts from the record
that the one before it leaves. -/
def answers (h : Heap) (recorded : List HandlePair) : List Comparison → List Bool
  | [] => []
  | c :: cs => (h.compare recorded c).1 :: h.answers (h.compare recorded c).2 cs

end Heap

end SchemaGraph
