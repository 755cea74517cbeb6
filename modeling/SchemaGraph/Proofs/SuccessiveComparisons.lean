import SchemaGraph.Proofs.CommonRecord
import SchemaGraph.Proofs.Traversal

/-!
# Comparisons one after another

Comparisons of schemas, fields and types may be made one after another in one record. Each then
trusts all pairs that were recorded before it, also those that were merely assumed to be equal when
they were recorded. What makes this right is that a comparison with the answer `true` leaves a
record in which each pair leads to recorded pairs only, apart from those with one schema on both
sides: the record is a bisimulation, so all that it holds is true. After an answer `false` it may
hold anything, and nothing is said about the answers from there on.

* `Heap.Ends`, `Heap.EndInTurn`: the same step by step, in the order in which parts are looked at.
* `Heap.supported_compare`: the record that an answer `true` leaves.
* `Heap.answers_in_turn`: up to the first `false`, the answers are those from an empty record.
-/

namespace SchemaGraph

namespace Comparison

/-- The pairs of schemas at corresponding places, if all else agrees. -/
def pairs? : Comparison → Option (List HandlePair)
  | .schemas l r => some [(l, r)]
  | .fields f g => f.correspondence? g
  | .types t u => t.correspondence? u

theorem outcome_checks (c : Comparison) : Check.outcome c.checks = c.pairs? := by
  cases c with
  | schemas l r => rfl
  | fields f g => exact Field.outcome_checks f g
  | types t u => exact DataType.outcome_checks t u

end Comparison

namespace Heap

variable {h : Heap} {recorded left : List HandlePair} {c : Comparison} {cs : List Comparison}

theorem equal_eq (h : Heap) (c : Comparison) : h.equal c = (h.compare [] c).1 := by
  cases c <;> rfl

theorem compare_eq (h : Heap) (recorded : List HandlePair) (c : Comparison) :
    h.compare recorded c =
      match c.pairs? with
      | none => (false, recorded)
      | some pairs => h.compareAll recorded pairs := by
  cases c <;> rfl

/-! ## Records without a difference -/

/-- An answer `true` leaves pairs that lead only to each other. -/
theorem supported_compare (hs : Supported h recorded []) (htrue : (h.compare recorded c).1 = true) :
    Supported h (h.compare recorded c).2 [] := by
  rw [compare_eq] at htrue ⊢
  cases hpairs : c.pairs? with
  | none =>
    rw [hpairs] at htrue
    cases htrue
  | some pairs =>
    rw [hpairs] at htrue
    exact (supported_of_compareAll hs.of_nil (Prod.ext htrue rfl)).1

/-- What such a record holds changes no answer. -/
theorem fst_compare_of_supported (hs : Supported h recorded []) (c : Comparison) :
    (h.compare recorded c).1 = h.equal c := by
  rw [equal_eq, compare_eq, compare_eq]
  cases c.pairs? with
  | none => rfl
  | some pairs =>
    rw [Bool.eq_iff_iff, compareAll_eq_true_iff hs, compareAll_nil_eq_true_iff]

/-- The record before each comparison holds no difference as long as there was none. -/
theorem getElem?_answers (hs : Supported h recorded []) {i : Nat}
    (hbefore : ∀ j < i, (h.answers recorded cs)[j]? = some true) :
    (h.answers recorded cs)[i]? = cs[i]?.map h.equal := by
  induction cs generalizing recorded i with
  | nil => rfl
  | cons c cs ih =>
    rw [answers] at hbefore ⊢
    cases i with
    | zero =>
      rw [fst_compare_of_supported hs]
      rfl
    | succ i =>
      have htrue : (h.compare recorded c).1 = true :=
        Option.some.inj (hbefore 0 (Nat.succ_pos i))
      exact ih (supported_compare hs htrue) fun j hj => hbefore (j + 1) (Nat.succ_lt_succ hj)

/-! ## Step by step -/

/-- A comparison that starts from a record comes to an answer, and leaves a record. -/
def Ends (h : Heap) (recorded : List HandlePair) (c : Comparison) (answer : Bool)
    (left : List HandlePair) : Prop :=
  ∃ n, (h.advance^[n] ⟨recorded, c.checks⟩).answer? = some answer ∧
    (h.advance^[n] ⟨recorded, c.checks⟩).recorded = left

/-- Comparisons come to their answers one after another, where each starts from the record that the
one before it leaves. -/
inductive EndInTurn (h : Heap) : List HandlePair → List Comparison → List Bool → Prop
  | nil (recorded : List HandlePair) : EndInTurn h recorded [] []
  | cons {recorded left : List HandlePair} {c : Comparison} {cs : List Comparison} {answer : Bool}
      {answers : List Bool} (first : h.Ends recorded c answer left)
      (rest : EndInTurn h left cs answers) : EndInTurn h recorded (c :: cs) (answer :: answers)

theorem exists_ends (h : Heap) (recorded : List HandlePair) (c : Comparison) :
    ∃ answer left, h.Ends recorded c answer left := by
  obtain ⟨n, answer, hn⟩ := h.exists_answer ⟨recorded, c.checks⟩
  exact ⟨answer, _, n, hn, rfl⟩

theorem exists_endInTurn (h : Heap) (recorded : List HandlePair) (cs : List Comparison) :
    ∃ answers, h.EndInTurn recorded cs answers := by
  induction cs generalizing recorded with
  | nil => exact ⟨[], .nil recorded⟩
  | cons c cs ih =>
    obtain ⟨answer, left, first⟩ := h.exists_ends recorded c
    obtain ⟨answers, rest⟩ := ih left
    exact ⟨answer :: answers, .cons first rest⟩

theorem foreseen_checks (h : Heap) (recorded : List HandlePair) (c : Comparison) :
    h.foreseen ⟨recorded, c.checks⟩ = finalRecord? (h.compare recorded c) := by
  rw [foreseen, compare_eq, c.outcome_checks]
  cases c.pairs? <;> rfl

/-- Step by step a comparison has the same answer, and if that is `true`, it leaves the same
record. -/
theorem Ends.eq_compare {answer : Bool} (hends : h.Ends recorded c answer left) :
    answer = (h.compare recorded c).1 ∧ (answer = true → left = (h.compare recorded c).2) := by
  obtain ⟨n, hanswer, rfl⟩ := hends
  exact eq_of_answer? (foreseen_checks h recorded c) hanswer

/-- Up to the first `false` it makes no difference whether steps are taken singly. -/
theorem EndInTurn.getElem?_eq {answers : List Bool} (hends : h.EndInTurn recorded cs answers)
    {i : Nat} (hbefore : ∀ j < i, answers[j]? = some true) :
    answers[i]? = (h.answers recorded cs)[i]? ∧
      ∀ j < i, (h.answers recorded cs)[j]? = some true := by
  induction hends generalizing i with
  | nil recorded =>
    refine ⟨rfl, ?_⟩
    intro j hj
    cases hbefore j hj
  | @cons recorded left c cs answer answers first rest ih =>
    obtain ⟨hanswer, hleft⟩ := first.eq_compare
    rw [Heap.answers]
    cases i with
    | zero => exact ⟨congrArg some hanswer, fun j hj => absurd hj (Nat.not_lt_zero j)⟩
    | succ i =>
      have htrue : answer = true := Option.some.inj (hbefore 0 (Nat.succ_pos i))
      obtain rfl := hleft htrue
      obtain ⟨hi, hall⟩ := ih fun j hj => hbefore (j + 1) (Nat.succ_lt_succ hj)
      refine ⟨hi, ?_⟩
      intro j hj
      cases j with
      | zero => exact congrArg some (hanswer.symm.trans htrue)
      | succ j => exact hall j (Nat.lt_of_succ_lt_succ hj)

/-! ## Up to the first difference -/

/-- **A common record changes no answer before a difference.** Of comparisons that are made one
after another from an empty record, each up to and including the first with the answer `false` has
the answer that it has by itself. It is the same if steps are taken singly, and then all of them
come to their answers. -/
theorem answers_in_turn (h : Heap) (cs : List Comparison) :
    (∀ i : Nat, (∀ j < i, (h.answers [] cs)[j]? = some true) →
      (h.answers [] cs)[i]? = cs[i]?.map h.equal) ∧
    (∃ answers, h.EndInTurn [] cs answers) ∧
    (∀ answers, h.EndInTurn [] cs answers → ∀ i : Nat, (∀ j < i, answers[j]? = some true) →
      answers[i]? = cs[i]?.map h.equal) ∧
    ∀ c, ∃ left, h.Ends [] c (h.equal c) left := by
  refine ⟨fun i => getElem?_answers (supported_nil h []), h.exists_endInTurn [] cs, ?_, ?_⟩
  · intro answers hends i hbefore
    obtain ⟨hi, hall⟩ := hends.getElem?_eq hbefore
    rw [hi]
    exact getElem?_answers (supported_nil h []) hall
  · intro c
    obtain ⟨answer, left, hends⟩ := h.exists_ends [] c
    have hanswer : answer = h.equal c := by rw [equal_eq, ← hends.eq_compare.1]
    exact ⟨left, hanswer ▸ hends⟩

/-- Two comparisons of loops, and one of a loop with an array of loops. -/
def loopComparisons : List Comparison :=
  [.schemas ⟨0⟩ ⟨1⟩, .fields (node ⟨0⟩)[1] (node ⟨2⟩)[1],
    .types (.record ⟨0⟩) (.array (.record ⟨1⟩))]

/-- The first difference is found at the end. -/
theorem answers_loops :
    (∀ j < 2, (loops.answers [] loopComparisons)[j]? = some true) ∧
    (loops.answers [] loopComparisons)[2]? = some false ∧
    loops.equal loopComparisons[2] = false ∧
    ∃ answers, loops.EndInTurn [] loopComparisons answers ∧
      (∀ j < 2, answers[j]? = some true) ∧ answers[2]? = some false := by
  have hrun : loops.answers [] loopComparisons = [true, true, false] := by cbv
  have hequal : loopComparisons.map loops.equal = [true, true, false] := by cbv
  have hbefore : ∀ j < 2, (loops.answers [] loopComparisons)[j]? = some true := by
    rw [hrun]
    decide
  obtain ⟨hanswers, ⟨answers, hends⟩, hsteps, -⟩ := answers_in_turn loops loopComparisons
  simp only [← List.getElem?_map, hequal] at hanswers hsteps
  have hzero := hsteps answers hends 0 fun j hj => absurd hj (Nat.not_lt_zero j)
  have hone := hsteps answers hends 1 fun j hj => Nat.lt_one_iff.mp hj ▸ hzero
  have hall : ∀ j < 2, answers[j]? = some true := by
    intro j hj
    interval_cases j
    · exact hzero
    · exact hone
  exact ⟨hbefore, hanswers 2 hbefore, by cbv, answers, hends, hall, hsteps answers hends 2 hall⟩

-- After a difference the record is no longer to be trusted.
example :
    twoNodes.answers [] [.schemas ⟨0⟩ ⟨1⟩, .schemas ⟨0⟩ ⟨1⟩] = [false, true] ∧
    twoNodes.equal (.schemas ⟨0⟩ ⟨1⟩) = false := by cbv

end Heap

end SchemaGraph
