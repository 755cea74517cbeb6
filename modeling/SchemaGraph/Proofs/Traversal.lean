import Mathlib
import SchemaGraph.Equality.Steps

/-!
# A comparison ends

`Heap.comparison` looks at one part after another, and enters a pair of nested schemas before it
looks at the next part. Its answer is that of `Heap.compareAll`, and its record as well if the
answer is `true`; but where there is a difference, `Heap.compareAll` may enter fewer pairs.

A comparison comes to an end because the pairs within the heap that are not recorded get fewer with
each pair that is entered, and what is pending gets less with each other step. A pair outside the
heap leads to no further pairs, so it counts for more than the one check that takes its place.

* `Check.outcome`: what checks come to as a whole.
* `Heap.Moves`, `Heap.moves_advance`: what a step can do; all that follows is derived from it.
* `Heap.exists_answer`: every comparison ends.
* `Heap.exists_answer_comparison`: it ends with the answer of `Heap.equalSchemas`.
* `Heap.within_comparison`: pairs are entered on the paths that lead away from the two schemas.
* `Heap.comparison_ends`: these facts together, with each pair entered once.
-/

namespace SchemaGraph

variable {ρ σ : Type}

/-! ## What is looked at -/

namespace Check

/-- The pairs of references in order, if all other parts agree. -/
def outcome : List (Check ρ σ) → Option (List (ρ × σ))
  | [] => some []
  | .parts true :: rest => outcome rest
  | .parts false :: _ => none
  | .references p :: rest => (outcome rest).map (p :: ·)

/-- How much there is to look at. A pair counts for more than the parts that it may lead to in a
schema without fields. -/
def weight : List (Check ρ σ) → Nat
  | [] => 0
  | .parts _ :: rest => weight rest + 1
  | .references _ :: rest => weight rest + 2

theorem outcome_append (cs ds : List (Check ρ σ)) :
    outcome (cs ++ ds) = (outcome cs).bind fun first => (outcome ds).map (first ++ ·) := by
  induction cs with
  | nil => simp [outcome]
  | cons c cs ih =>
    cases c with
    | parts agree =>
      cases agree with
      | true => exact ih
      | false => rfl
    | references p =>
      simp only [List.cons_append, outcome, ih]
      cases outcome cs <;> cases outcome ds <;> rfl

/-- Lists of one length agree if their heads agree and their tails are lists of one length that
agree. -/
theorem outcome_positions (m n : Nat) (head tail : List (Check ρ σ)) :
    outcome (.parts (decide (m + 1 = n + 1)) :: (head ++ tail)) = do
      let first ← outcome head
      let rest ← outcome (.parts (decide (m = n)) :: tail)
      return first ++ rest := by
  by_cases hmn : m = n
  · simp only [hmn, decide_true, outcome, outcome_append]
    cases outcome head <;> cases outcome tail <;> rfl
  · simp only [Nat.add_right_cancel_iff, hmn, decide_false, outcome]
    cases outcome head <;> rfl

theorem mem_of_outcome {cs : List (Check ρ σ)} {pairs : List (ρ × σ)} {p : ρ × σ}
    (houtcome : outcome cs = some pairs) (hp : p ∈ pairs) : .references p ∈ cs := by
  induction cs generalizing pairs with
  | nil =>
    obtain rfl : [] = pairs := Option.some.inj houtcome
    cases hp
  | cons c cs ih =>
    cases c with
    | parts agree =>
      cases agree with
      | true => exact List.mem_cons_of_mem _ (ih houtcome hp)
      | false => cases houtcome
    | references q =>
      obtain ⟨rest, hrest, rfl⟩ := Option.map_eq_some_iff.mp houtcome
      rcases List.mem_cons.mp hp with rfl | hp
      · exact List.mem_cons_self
      · exact List.mem_cons_of_mem _ (ih hrest hp)

theorem weight_append (cs ds : List (Check ρ σ)) :
    weight (cs ++ ds) = weight cs + weight ds := by
  induction cs with
  | nil => simp [weight]
  | cons c cs ih => cases c <;> simp only [List.cons_append, weight, ih] <;> omega

theorem weight_lt_cons (c : Check ρ σ) (cs : List (Check ρ σ)) : weight cs < weight (c :: cs) := by
  cases c <;> simp [weight]

end Check

namespace DataType

mutual

theorem outcome_checks (t : DataType ρ) (u : DataType σ) :
    Check.outcome (t.checks u) = t.correspondence? u := by
  cases t with
  | basic a =>
    cases u with
    | basic b =>
      by_cases hab : a = b
      · simp [checks, correspondence?, Check.outcome, hab]
      · simp [checks, correspondence?, Check.outcome, hab]
    | _ => rfl
  | array t =>
    cases u with
    | array u => exact outcome_checks t u
    | _ => rfl
  | map t =>
    cases u with
    | map u => exact outcome_checks t u
    | _ => rfl
  | choice ts =>
    cases u with
    | choice us => exact outcome_checksAll ts us
    | _ => rfl
  | record r => cases u <;> rfl

theorem outcome_checksAll (ts : List (DataType ρ)) (us : List (DataType σ)) :
    Check.outcome (.parts (decide (ts.length = us.length)) :: checksAll ts us) =
      correspondences? ts us := by
  cases ts with
  | nil => cases us <;> rfl
  | cons t ts =>
    cases us with
    | nil => rfl
    | cons u us =>
      rw [List.length_cons, List.length_cons, checksAll, Check.outcome_positions,
        outcome_checks t u, outcome_checksAll ts us, correspondences?]

end

mutual

theorem mem_references_of_mem_checks {p : ρ × σ} (t : DataType ρ) (u : DataType σ)
    (hp : .references p ∈ t.checks u) : p.1 ∈ t.references ∧ p.2 ∈ u.references := by
  cases t with
  | basic a => cases u <;> simp [checks] at hp
  | array t =>
    cases u with
    | array u => exact mem_references_of_mem_checks t u hp
    | _ => simp [checks] at hp
  | map t =>
    cases u with
    | map u => exact mem_references_of_mem_checks t u hp
    | _ => simp [checks] at hp
  | choice ts =>
    cases u with
    | choice us =>
      refine mem_references_of_mem_checksAll ts us ?_
      simpa [checks] using hp
    | _ => simp [checks] at hp
  | record r =>
    cases u with
    | record s =>
      obtain rfl : p = (r, s) := by simpa [checks] using hp
      simp [references]
    | _ => simp [checks] at hp

theorem mem_references_of_mem_checksAll {p : ρ × σ} (ts : List (DataType ρ))
    (us : List (DataType σ)) (hp : .references p ∈ checksAll ts us) :
    p.1 ∈ referencesAll ts ∧ p.2 ∈ referencesAll us := by
  match ts, us with
  | t :: ts, u :: us =>
    rcases List.mem_append.mp hp with hp | hp
    · obtain ⟨hl, hr⟩ := mem_references_of_mem_checks t u hp
      exact ⟨List.mem_append_left _ hl, List.mem_append_left _ hr⟩
    · obtain ⟨hl, hr⟩ := mem_references_of_mem_checksAll ts us hp
      exact ⟨List.mem_append_right _ hl, List.mem_append_right _ hr⟩

end

end DataType

namespace Field

theorem outcome_checks (f : Field ρ) (g : Field σ) :
    Check.outcome (f.checks g) = f.correspondence? g := by
  unfold checks correspondence?
  split
  next agree =>
    rw [decide_eq_true agree]
    exact DataType.outcome_checks f.dataType g.dataType
  next differ =>
    rw [decide_eq_false differ]
    rfl

theorem outcome_checksAll (fs : List (Field ρ)) (gs : List (Field σ)) :
    Check.outcome (.parts (decide (fs.length = gs.length)) :: checksAll fs gs) =
      correspondences? fs gs := by
  induction fs generalizing gs with
  | nil => cases gs <;> rfl
  | cons f fs ih =>
    cases gs with
    | nil => rfl
    | cons g gs =>
      rw [List.length_cons, List.length_cons, checksAll, Check.outcome_positions,
        outcome_checks f g, ih gs, correspondences?]

theorem mem_references_of_mem_checksAll {p : ρ × σ} {fs : List (Field ρ)} {gs : List (Field σ)}
    (hp : .references p ∈ checksAll fs gs) :
    (∃ f ∈ fs, p.1 ∈ f.dataType.references) ∧ ∃ g ∈ gs, p.2 ∈ g.dataType.references := by
  fun_induction checksAll fs gs with
  | case1 f fs g gs ih =>
    rcases List.mem_append.mp hp with hp | hp
    · have hmem : Check.references p ∈ f.dataType.checks g.dataType := by
        simpa [checks] using hp
      obtain ⟨hl, hr⟩ := DataType.mem_references_of_mem_checks _ _ hmem
      exact ⟨⟨f, List.mem_cons_self, hl⟩, ⟨g, List.mem_cons_self, hr⟩⟩
    · obtain ⟨⟨f', hf', hl⟩, ⟨g', hg', hr⟩⟩ := ih hp
      exact ⟨⟨f', List.mem_cons_of_mem _ hf', hl⟩, ⟨g', List.mem_cons_of_mem _ hg', hr⟩⟩
  | case2 => cases hp

end Field

/-! ## Steps -/

theorem Progress.hasMet_iff {c : Progress} {p : HandlePair} :
    c.hasMet p = true ↔ p.1 = p.2 ∨ p ∈ c.recorded := by
  simp [Progress.hasMet]

namespace Heap

/-- A schema is the other one, or leads to it through the types of its fields. -/
def Leads (h : Heap) : Handle → Handle → Prop :=
  Relation.ReflTransGen fun s t => t ∈ h.references s

/-- What a step can do. -/
inductive Moves (h : Heap) (c : Progress) : Progress → Prop
  /-- The answer is known. -/
  | stay {answer : Bool} (known : c.answer? = some answer) : Moves h c c
  /-- Parts agree. -/
  | agree {pending} (next : c.pending = .parts true :: pending) : Moves h c ⟨c.recorded, pending⟩
  /-- A pair need not be entered. -/
  | skip {p pending} (next : c.pending = .references p :: pending)
      (met : p.1 = p.2 ∨ p ∈ c.recorded) : Moves h c ⟨c.recorded, pending⟩
  /-- A pair is entered. -/
  | enter {p pending} (next : c.pending = .references p :: pending)
      (unmet : ¬ (p.1 = p.2 ∨ p ∈ c.recorded)) :
      Moves h c ⟨p :: c.recorded, h.checks p ++ pending⟩

theorem moves_advance (h : Heap) (c : Progress) : Moves h c (h.advance c) := by
  obtain ⟨recorded, pending⟩ := c
  cases pending with
  | nil => exact .stay rfl
  | cons check pending =>
    cases check with
    | parts agree =>
      cases agree with
      | true => exact .agree rfl
      | false => exact .stay rfl
    | references p =>
      unfold advance
      dsimp only
      split
      next met => exact .skip rfl (Progress.hasMet_iff.mp met)
      next unmet => exact .enter rfl fun met => unmet (Progress.hasMet_iff.mpr met)

theorem comparison_succ (h : Heap) (a b : Handle) (n : Nat) :
    h.comparison a b (n + 1) = h.advance (h.comparison a b n) :=
  Function.iterate_succ_apply' ..

variable {h : Heap} {a b : Handle} {c : Progress} {p : HandlePair}

/-! ## Every comparison ends -/

/-- With a schema outside the heap, only the numbers of fields are looked at. -/
theorem weight_checks_of_not_mem (outside : p ∉ h.handlePairs) : Check.weight (h.checks p) = 1 := by
  have hnone : Field.checksAll (h.fields p.1) (h.fields p.2) = [] := by
    rw [mem_handlePairs, Decidable.not_and_iff_or_not] at outside
    rcases outside with hl | hr
    · rw [fields_eq_nil hl, Field.checksAll]
      simp
    · rw [fields_eq_nil hr]
      cases h.fields p.1 <;> rfl
  rw [checks, hnone]
  rfl

theorem lex_advance (unknown : c.answer? = none) :
    Prod.Lex (· < ·) (· < ·)
      ((remaining h.handlePairs (h.advance c).recorded).length, Check.weight (h.advance c).pending)
      ((remaining h.handlePairs c.recorded).length, Check.weight c.pending) := by
  have hmoves := h.moves_advance c
  generalize h.advance c = d at hmoves ⊢
  cases hmoves with
  | stay known =>
    rw [unknown] at known
    cases known
  | agree next =>
    rw [next]
    exact .right _ (Check.weight_lt_cons _ _)
  | skip next met =>
    rw [next]
    exact .right _ (Check.weight_lt_cons _ _)
  | @enter p pending next unmet =>
    -- Within the heap a pair is spent; outside it the check that takes its place weighs less.
    by_cases inside : p ∈ h.handlePairs
    · exact .left _ _ (length_remaining_lt inside fun mem => unmet (.inr mem))
    · rw [remaining_cons_of_not_mem inside, next, Check.weight_append,
        weight_checks_of_not_mem inside, Check.weight]
      exact .right _ (by omega)

theorem exists_answer (h : Heap) (c : Progress) :
    ∃ n answer, (h.advance^[n] c).answer? = some answer := by
  cases hanswer : c.answer? with
  | some answer => exact ⟨0, answer, hanswer⟩
  | none =>
    obtain ⟨n, answer, hn⟩ := exists_answer h (h.advance c)
    refine ⟨n + 1, answer, ?_⟩
    rwa [Function.iterate_succ_apply]
termination_by ((remaining h.handlePairs c.recorded).length, Check.weight c.pending)
decreasing_by exact lex_advance hanswer

/-! ## The answer -/

/-- The record that a run of `compareAll` leaves, if it answers `true`. -/
def finalRecord? (run : Bool × List HandlePair) : Option (List HandlePair) :=
  if run.1 then some run.2 else none

theorem finalRecord?_eq_some_iff {run : Bool × List HandlePair} {recorded : List HandlePair} :
    finalRecord? run = some recorded ↔ run.1 = true ∧ run.2 = recorded := by
  simp [finalRecord?]

theorem finalRecord?_eq_none_iff {run : Bool × List HandlePair} :
    finalRecord? run = none ↔ run.1 = false := by
  simp [finalRecord?]

/-- What a comparison that has come this far will have recorded in the end, if it finds no
difference. -/
def foreseen (h : Heap) (c : Progress) : Option (List HandlePair) :=
  (Check.outcome c.pending).bind fun pairs => finalRecord? (h.compareAll c.recorded pairs)

section CompareAll

variable {recorded pending : List HandlePair}

theorem compareAll_of_met (met : p.1 = p.2 ∨ p ∈ recorded) :
    h.compareAll recorded (p :: pending) = h.compareAll recorded pending := by
  rw [compareAll, if_pos met]

theorem compareAll_of_unmet (unmet : ¬ (p.1 = p.2 ∨ p ∈ recorded)) :
    h.compareAll recorded (p :: pending) =
      match Field.correspondences? (h.fields p.1) (h.fields p.2) with
      | none => (false, p :: recorded)
      | some further => h.compareAll (p :: recorded) (further ++ pending) := by
  rw [compareAll, if_neg unmet]
  split
  next hnone => rw [hnone]
  next further hsome => rw [hsome]

end CompareAll

theorem foreseen_of_answer? {answer : Bool} (known : c.answer? = some answer) :
    h.foreseen c = finalRecord? (answer, c.recorded) := by
  obtain ⟨recorded, pending⟩ := c
  unfold Progress.answer? at known
  split at known
  next hpending =>
    obtain rfl : pending = [] := hpending
    cases known
    simp [foreseen, Check.outcome, compareAll]
  next hpending =>
    obtain ⟨rest, rfl⟩ : ∃ rest, pending = .parts false :: rest := ⟨_, hpending⟩
    cases known
    rfl
  next => cases known

theorem foreseen_advance (h : Heap) (c : Progress) : h.foreseen (h.advance c) = h.foreseen c := by
  have hmoves := h.moves_advance c
  generalize h.advance c = d at hmoves ⊢
  cases hmoves with
  | stay known => rfl
  | agree next => rw [foreseen, foreseen, next, Check.outcome]
  | @skip p pending next met =>
    rw [foreseen, foreseen, next, Check.outcome]
    cases Check.outcome pending with
    | none => rfl
    | some pairs => exact congrArg finalRecord? (compareAll_of_met met).symm
  | @enter p pending next unmet =>
    rw [foreseen, foreseen, next, Check.outcome, Check.outcome_append, checks,
      Field.outcome_checksAll]
    cases Check.outcome pending with
    -- A difference that is still pending is found, whatever the pair leads to.
    | none => cases Field.correspondences? (h.fields p.1) (h.fields p.2) <;> rfl
    | some pairs =>
      dsimp only [Option.map_some, Option.bind_some]
      rw [compareAll_of_unmet unmet]
      cases Field.correspondences? (h.fields p.1) (h.fields p.2) <;> rfl

theorem foreseen_iterate (h : Heap) (c : Progress) (n : Nat) :
    h.foreseen (h.advance^[n] c) = h.foreseen c := by
  induction n with
  | zero => rfl
  | succ n ih => rw [Function.iterate_succ_apply', foreseen_advance, ih]

/-- The answer is the one of the run that was foreseen, and if it is `true`, so is the record. -/
theorem eq_of_answer? {run : Bool × List HandlePair} {n : Nat} {answer : Bool}
    (hrun : h.foreseen c = finalRecord? run) (known : (h.advance^[n] c).answer? = some answer) :
    answer = run.1 ∧ (answer = true → (h.advance^[n] c).recorded = run.2) := by
  have hrecord : finalRecord? run = finalRecord? (answer, (h.advance^[n] c).recorded) := by
    rw [← hrun, ← foreseen_iterate h c n]
    exact foreseen_of_answer? known
  cases answer with
  | true =>
    obtain ⟨hanswer, hrecorded⟩ := finalRecord?_eq_some_iff.mp hrecord
    exact ⟨hanswer.symm, fun _ => hrecorded.symm⟩
  | false =>
    have hanswer := finalRecord?_eq_none_iff.mp hrecord
    exact ⟨hanswer.symm, fun habsurd => Bool.noConfusion habsurd⟩

/-- A comparison ends with the answer of `compareSchemas`, and if that is `true`, with its
record. -/
theorem exists_answer_comparison (h : Heap) (a b : Handle) :
    ∃ n, (h.comparison a b n).answer? = some (h.equalSchemas a b) ∧
      (h.equalSchemas a b = true →
        (h.comparison a b n).recorded = (h.compareSchemas [] a b).2) := by
  obtain ⟨n, answer, hn⟩ := exists_answer h (h.comparison a b 0)
  have hrun : h.foreseen (h.comparison a b 0) = finalRecord? (h.compareSchemas [] a b) := rfl
  obtain ⟨rfl, hrecorded⟩ := eq_of_answer? hrun hn
  exact ⟨n, hn, hrecorded⟩

/-! ## What is recorded -/

theorem recorded_advance (h : Heap) (c : Progress) :
    (h.advance c).recorded = c.enters?.toList ++ c.recorded := by
  obtain ⟨recorded, pending⟩ := c
  cases pending with
  | nil => rfl
  | cons check pending =>
    cases check with
    | parts agree => cases agree <;> rfl
    | references p =>
      unfold advance Progress.enters?
      dsimp only
      split <;> rfl

theorem not_mem_recorded_of_enters? (hp : c.enters? = some p) : p ∉ c.recorded := by
  unfold Progress.enters? at hp
  split at hp
  next =>
    split at hp
    next => cases hp
    next unmet =>
      cases hp
      exact fun mem => unmet (Progress.hasMet_iff.mpr (.inr mem))
  next => cases hp

theorem mem_recorded_comparison_iff {n : Nat} :
    p ∈ (h.comparison a b n).recorded ↔ ∃ m < n, (h.comparison a b m).enters? = some p := by
  induction n with
  | zero =>
    constructor
    · intro mem
      cases mem
    · rintro ⟨m, hm, -⟩
      cases hm
  | succ n ih =>
    rw [comparison_succ, recorded_advance, List.mem_append, Option.mem_toList, ih]
    constructor
    · rintro (hn | ⟨m, hm, hp⟩)
      · exact ⟨n, Nat.lt_succ_self n, hn⟩
      · exact ⟨m, Nat.lt_succ_of_lt hm, hp⟩
    · rintro ⟨m, hm, hp⟩
      rcases Nat.lt_succ_iff_lt_or_eq.mp hm with hm | rfl
      · exact .inr ⟨m, hm, hp⟩
      · exact .inl hp

/-- All pairs that are recorded or pending lie on paths that lead away from two schemas. -/
structure Within (h : Heap) (a b : Handle) (c : Progress) : Prop where
  recorded : ∀ p ∈ c.recorded, h.Leads a p.1 ∧ h.Leads b p.2
  pending : ∀ p, .references p ∈ c.pending → h.Leads a p.1 ∧ h.Leads b p.2

theorem leads_of_mem_checks {q : HandlePair} (hp : h.Leads a p.1 ∧ h.Leads b p.2)
    (hq : .references q ∈ h.checks p) : h.Leads a q.1 ∧ h.Leads b q.2 := by
  have hmem : Check.references q ∈ Field.checksAll (h.fields p.1) (h.fields p.2) := by
    simpa [checks] using hq
  obtain ⟨hl, hr⟩ := Field.mem_references_of_mem_checksAll hmem
  have hleft : q.1 ∈ h.references p.1 := List.mem_flatMap.mpr hl
  have hright : q.2 ∈ h.references p.2 := List.mem_flatMap.mpr hr
  exact ⟨hp.1.tail hleft, hp.2.tail hright⟩

theorem Within.pass {check} {pending} (hc : Within h a b c) (next : c.pending = check :: pending) :
    Within h a b ⟨c.recorded, pending⟩ where
  recorded := hc.recorded
  pending q hq := hc.pending q (next ▸ List.mem_cons_of_mem _ hq)

theorem Within.advance (hc : Within h a b c) : Within h a b (h.advance c) := by
  have hmoves := h.moves_advance c
  generalize h.advance c = d at hmoves ⊢
  cases hmoves with
  | stay known => exact hc
  | agree next => exact hc.pass next
  | skip next met => exact hc.pass next
  | @enter p pending next unmet =>
    have hp := hc.pending p (next ▸ List.mem_cons_self)
    constructor
    · intro q hq
      rcases List.mem_cons.mp hq with rfl | hq
      · exact hp
      · exact hc.recorded q hq
    · intro q hq
      rcases List.mem_append.mp hq with hq | hq
      · exact leads_of_mem_checks hp hq
      · exact (hc.pass next).pending q hq

theorem within_comparison (h : Heap) (a b : Handle) (n : Nat) :
    Within h a b (h.comparison a b n) := by
  induction n with
  | zero =>
    constructor
    · intro p hp
      cases hp
    · intro p hp
      obtain rfl : p = (a, b) := by simpa [comparison] using hp
      exact ⟨.refl, .refl⟩
  | succ n ih =>
    rw [comparison_succ]
    exact ih.advance

/-! ### The record of `compareAll` -/

theorem leads_of_mem_compareAll {recorded pending : List HandlePair}
    (hrecorded : ∀ p ∈ recorded, h.Leads a p.1 ∧ h.Leads b p.2)
    (hpending : ∀ p ∈ pending, h.Leads a p.1 ∧ h.Leads b p.2) :
    ∀ p ∈ (h.compareAll recorded pending).2, h.Leads a p.1 ∧ h.Leads b p.2 := by
  fun_induction compareAll h recorded pending with
  | case1 recorded => exact hrecorded
  | case2 recorded p pending met ih =>
    exact ih hrecorded fun q hq => hpending q (List.mem_cons_of_mem _ hq)
  | case3 recorded p pending unmet hnone =>
    intro q hq
    rcases List.mem_cons.mp hq with rfl | hq
    · exact hpending q List.mem_cons_self
    · exact hrecorded q hq
  | case4 recorded p pending unmet further hsome ih =>
    have hp := hpending p List.mem_cons_self
    apply ih
    · intro q hq
      rcases List.mem_cons.mp hq with rfl | hq
      · exact hp
      · exact hrecorded q hq
    · intro q hq
      rcases List.mem_append.mp hq with hq | hq
      · refine leads_of_mem_checks hp (Check.mem_of_outcome ?_ hq)
        rw [checks, Field.outcome_checksAll, hsome]
      · exact hpending q (List.mem_cons_of_mem _ hq)

theorem nodup_compareAll {recorded pending : List HandlePair} (hnodup : recorded.Nodup) :
    (h.compareAll recorded pending).2.Nodup := by
  fun_induction compareAll h recorded pending with
  | case1 recorded => exact hnodup
  | case2 recorded p pending met ih => exact ih hnodup
  | case3 recorded p pending unmet hnone =>
    exact List.nodup_cons.mpr ⟨fun mem => unmet (.inr mem), hnodup⟩
  | case4 recorded p pending unmet further hsome ih =>
    exact ih (List.nodup_cons.mpr ⟨fun mem => unmet (.inr mem), hnodup⟩)

/-- **A comparison ends.** After some number of steps the answer is known, and it is that of
`Heap.equalSchemas`; if it is `true`, then `Heap.compareSchemas` leaves the same record. On the way
the record holds the pairs that were entered, each pair is entered once, and every recorded pair
consists of a schema that the left one leads to and a schema that the right one leads to. The record
of `Heap.compareSchemas` is such a record as well, whatever the answer. -/
theorem comparison_ends (h : Heap) (a b : Handle) :
    (∃ n, (h.comparison a b n).answer? = some (h.equalSchemas a b) ∧
      (h.equalSchemas a b = true →
        (h.comparison a b n).recorded = (h.compareSchemas [] a b).2)) ∧
    (∀ n p, p ∈ (h.comparison a b n).recorded ↔
      ∃ m < n, (h.comparison a b m).enters? = some p) ∧
    (∀ m n p, m < n → (h.comparison a b m).enters? = some p →
      (h.comparison a b n).enters? ≠ some p) ∧
    (∀ n, ∀ p ∈ (h.comparison a b n).recorded, h.Leads a p.1 ∧ h.Leads b p.2) ∧
    (h.compareSchemas [] a b).2.Nodup ∧
    ∀ p ∈ (h.compareSchemas [] a b).2, h.Leads a p.1 ∧ h.Leads b p.2 := by
  refine ⟨exists_answer_comparison h a b, fun _ _ => mem_recorded_comparison_iff, ?_,
    fun n => (within_comparison h a b n).recorded, nodup_compareAll List.nodup_nil,
    leads_of_mem_compareAll (by simp) ?_⟩
  · intro m n p hmn hm hn
    exact not_mem_recorded_of_enters? hn (mem_recorded_comparison_iff.mpr ⟨m, hmn, hm⟩)
  · intro p hp
    obtain rfl : p = (a, b) := List.mem_singleton.mp hp
    exact ⟨.refl, .refl⟩

/-- A body, and its size behind it. -/
def sized (body : Handle) (size : BasicType) : List (Field Handle) :=
  [⟨"body", .record body, none, .empty, true⟩, ⟨"size", .basic size, none, .empty, true⟩]

/-- Two schemas that refer to further ones before they differ. -/
def late : Heap :=
  ⟨#[⟨.empty, .indexed (sized ⟨2⟩ .int), none, none, none⟩,
    ⟨.empty, .indexed (sized ⟨3⟩ .long), none, none, none⟩,
    ⟨.empty, .empty, none, none, none⟩,
    ⟨.empty, .empty, none, none, none⟩]⟩

/-- The difference is found after the further schemas are entered. -/
theorem comparison_late :
    late.equalSchemas ⟨0⟩ ⟨1⟩ = false ∧
    (∃ n, (late.comparison ⟨0⟩ ⟨1⟩ n).answer? = some false) ∧
    (late.comparison ⟨0⟩ ⟨1⟩ 3).enters? = some (⟨2⟩, ⟨3⟩) ∧
    (∀ n, 3 < n → (late.comparison ⟨0⟩ ⟨1⟩ n).enters? ≠ some (⟨2⟩, ⟨3⟩)) ∧
    late.Leads ⟨0⟩ ⟨2⟩ ∧ late.Leads ⟨1⟩ ⟨3⟩ := by
  have hanswer : late.equalSchemas ⟨0⟩ ⟨1⟩ = false := by cbv
  have henters : (late.comparison ⟨0⟩ ⟨1⟩ 3).enters? = some (⟨2⟩, ⟨3⟩) := by decide
  obtain ⟨hends, hrecorded, honce, hleads, -⟩ := comparison_ends late ⟨0⟩ ⟨1⟩
  have hmem : (⟨2⟩, ⟨3⟩) ∈ (late.comparison ⟨0⟩ ⟨1⟩ 4).recorded :=
    (hrecorded 4 _).mpr ⟨3, by decide, henters⟩
  obtain ⟨n, hn, -⟩ := hends
  refine ⟨hanswer, ⟨n, hanswer ▸ hn⟩, henters, ?_, hleads 4 _ hmem⟩
  intro n hn
  exact honce 3 n _ hn henters

end Heap

end SchemaGraph
