import Mathlib.Logic.Function.Iterate
import SchemaGraph.Equality

/-!
# A comparison step by step

A comparison goes through the parts of two field lists in order. Parts that hold no schema agree or
end the comparison; a pair of nested schemas is entered before the next part is looked at, unless
the pair is recorded or has one schema on both sides. `Heap.compareAll` looks at the parts of two
field lists as a whole before it enters the first pair. Here every part is a step of its own, so
that something can be said about all that is recorded on the way.

* `Check`, `DataType.checks`, `Heap.checks`: what is looked at, in order.
* `Heap.advance`, `Heap.comparison`: one step, and a comparison after some number of steps.
-/

namespace SchemaGraph

variable {ρ σ : Type}

/-! ## What is looked at -/

/-- One thing to look at in a comparison. -/
inductive Check (ρ σ : Type) where
  /-- Parts without references, which agree or do not. -/
  | parts (agree : Bool)
  /-- Two references at corresponding places. -/
  | references (pair : ρ × σ)

namespace DataType

mutual

/-- What is looked at in two types, in order. -/
def checks : DataType ρ → DataType σ → List (Check ρ σ)
  | .basic a, .basic b => [.parts (decide (a = b))]
  | .array t, .array u => t.checks u
  | .map t, .map u => t.checks u
  | .choice ts, .choice us => .parts (decide (ts.length = us.length)) :: checksAll ts us
  | .record r, .record s => [.references (r, s)]
  | _, _ => [.parts false]

/-- What is looked at in two lists of types, position by position as far as both go. -/
def checksAll : List (DataType ρ) → List (DataType σ) → List (Check ρ σ)
  | t :: ts, u :: us => t.checks u ++ checksAll ts us
  | _, _ => []

end

end DataType

namespace Field

/-- What is looked at in two fields: everything but the types, and then the types. -/
def checks (f : Field ρ) (g : Field σ) : List (Check ρ σ) :=
  .parts (decide (f.name = g.name ∧ f.nullable = g.nullable ∧ f.aliases = g.aliases
    ∧ f.defaultValue = g.defaultValue)) :: f.dataType.checks g.dataType

/-- What is looked at in two lists of fields, position by position as far as both go. -/
def checksAll : List (Field ρ) → List (Field σ) → List (Check ρ σ)
  | f :: fs, g :: gs => f.checks g ++ checksAll fs gs
  | _, _ => []

end Field

/-- What is looked at in a comparison, in order. -/
def Comparison.checks : Comparison → List (Check Handle Handle)
  | .schemas l r => [.references (l, r)]
  | .fields f g => f.checks g
  | .types t u => t.checks u

/-! ## Steps -/

/-- A comparison under way: the pairs of schemas that it has entered, and what it has still to look
at. -/
structure Progress where
  recorded : List HandlePair
  pending : List (Check Handle Handle)

namespace Progress

/-- The answer, once it is known. -/
def answer? (c : Progress) : Option Bool :=
  match c.pending with
  | [] => some true
  | .parts false :: _ => some false
  | _ => none

/-- Whether a pair need not be entered. -/
def hasMet (c : Progress) (p : HandlePair) : Bool :=
  p.1 == p.2 || c.recorded.contains p

/-- The pair that is entered next, if the next step enters one. -/
def enters? (c : Progress) : Option HandlePair :=
  match c.pending with
  | .references p :: _ => if c.hasMet p then none else some p
  | _ => none

end Progress

namespace Heap

/-- What is looked at in the field lists of a pair of schemas. -/
def checks (h : Heap) (p : HandlePair) : List (Check Handle Handle) :=
  .parts (decide ((h.fields p.1).length = (h.fields p.2).length)) ::
    Field.checksAll (h.fields p.1) (h.fields p.2)

/-- Look at the next thing. Once the answer is known, nothing more happens. -/
def advance (h : Heap) (c : Progress) : Progress :=
  match c.pending with
  | [] => c
  | .parts false :: _ => c
  | .parts true :: pending => { c with pending }
  | .references p :: pending =>
    if c.hasMet p then { c with pending }
    else ⟨p :: c.recorded, h.checks p ++ pending⟩

/-- The comparison of two schemas after some number of steps. -/
def comparison (h : Heap) (a b : Handle) (steps : Nat) : Progress :=
  h.advance^[steps] ⟨[], [.references (a, b)]⟩

end Heap

end SchemaGraph
