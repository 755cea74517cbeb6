import SchemaGraph.Digest.Metered
import SchemaGraph.Proofs.Unfolding

/-!
# Digests from one counter

`Heap.meter` fails where a level is taken out of an empty counter, and it is cut off, without a
result, where schemas are entered from within each other deeper than was foreseen. The one is shown
not to happen at any depth, and the other not to happen where one schema more was foreseen than the
counter has levels. So the recursion ends.

* `Metered.Yields`: what a computation comes to, unless it is cut off.
* `Metered.semantics`: so the laws of a counter hold, also for computations that are cut off.
* `Heap.meter_yields`: digests come to those to which the number of levels is an argument, and leave
  the counter as it was.
* `Heap.meter_in_turn`: so digests from one counter are those from a counter of their own.
-/

namespace SchemaGraph

namespace Metered

variable {α β : Type} {x : Metered α} {levels left : Nat} {a : α} {cut : Prop}

/-- The computation comes to a value, with a number of levels left, unless it is cut off. -/
def Yields (x : Metered α) (levels : Nat) (a : α) (left : Nat) (mayBeCutOff : Prop) : Prop :=
  x.run levels = some (.ok (a, left)) ∨ mayBeCutOff ∧ x.run levels = none

theorem Yields.bind {next : α → Metered β} {b : β} {last : Nat} (hx : x.Yields levels a left cut)
    (hnext : (next a).Yields left b last cut) : (x >>= next).Yields levels b last cut := by
  unfold Yields
  rw [StateT.run_bind]
  cases hx with
  | inl hends =>
    rw [hends]
    exact hnext
  | inr hstops =>
    rw [hstops.2]
    exact .inr ⟨hstops.1, rfl⟩

def semantics (cut : Prop) : counter.Semantics where
  Gives x levels a left := x.Yields levels a left cut
  pure _ _ := .inl rfl
  bind := Yields.bind
  read _ := .inl rfl
  lower _ := .inl rfl
  raise _ := .inl rfl

theorem Yields.run_eq (hx : x.Yields levels a left cut) (hcut : ¬cut) :
    x.run levels = some (.ok (a, left)) :=
  hx.resolve_right fun hstops => hcut hstops.1

theorem Yields.run_ne_error (hx : x.Yields levels a left cut) (overdraft : Overdraft) :
    x.run levels ≠ some (.error overdraft) := by
  intro hfails
  cases hx with
  | inl hends =>
    rw [hends] at hfails
    cases hfails
  | inr hstops =>
    rw [hstops.2] at hfails
    cases hfails

theorem run'_eq_of_run_eq (hx : x.run levels = some (.ok (a, left))) :
    x.run' levels = some (.ok a) := by
  rw [StateT.run'_eq, hx]
  rfl

end Metered

namespace Heap

/-- A computation may be cut off only if no more schemas were foreseen than there are levels. -/
theorem meterRecord_yields (h : Heap) (depth levels : Nat) (s : Handle) :
    (h.meterRecord depth s).Yields levels (h.nestedDigest levels s) levels (depth ≤ levels) := by
  apply (Metered.semantics (depth ≤ levels)).enterWith h
  intro hle _
  exact .inr ⟨hle, rfl⟩

theorem meter_yields (h : Heap) (depth levels : Nat) (subject : Subject) :
    (h.meter depth subject).Yields levels (h.digest levels subject) levels (depth ≤ levels) :=
  (Metered.semantics (depth ≤ levels)).takeSubject (h.meterRecord_yields depth levels) subject

/-- **What a digest takes it gives back.** From every number of levels the digest of every subject
ends, since schemas are not entered from within each other more than once deeper than there are
levels, and no level is ever taken out of an empty counter. The counter is then as it was, and the
digest is the one to which the number of levels is an argument. So digests that are taken one after
another from one counter are those that are taken each from a counter of its own. -/
theorem meter_in_turn (h : Heap) (levels : Nat) :
    (∀ depth x overdraft, (h.meter depth x).run levels ≠ some (.error overdraft)) ∧
    (∀ more x,
      (h.meter (levels + 1 + more) x).run levels = some (.ok (h.digest levels x, levels))) ∧
    (∀ more (xs : List Subject),
      (xs.mapM (h.meter (levels + 1 + more))).run levels =
        some (.ok (xs.map (h.digest levels), levels)) ∧
      (xs.mapM (h.meter (levels + 1 + more))).run' levels =
        xs.mapM fun x => (h.meter (levels + 1 + more) x).run' levels) ∧
    (∀ x, (h.take x).run levels = (h.digest levels x, levels)) ∧
    ∀ xs : List Subject, (xs.mapM h.take).run levels = (xs.map (h.digest levels), levels) := by
  have hdeep : ∀ more, ¬levels + 1 + more ≤ levels := fun more => by omega
  have hends : ∀ more x,
      (h.meter (levels + 1 + more) x).run levels = some (.ok (h.digest levels x, levels)) :=
    fun more x => (h.meter_yields _ levels x).run_eq (hdeep more)
  refine ⟨?_, hends, ?_, h.take_run levels, Budgeted.semantics.mapM (h.take_run levels)⟩
  · intro depth x
    exact (h.meter_yields depth levels x).run_ne_error
  · intro more xs
    have hall := ((Metered.semantics _).mapM (h.meter_yields _ levels) xs).run_eq (hdeep more)
    have hfresh : ∀ x, (h.meter (levels + 1 + more) x).run' levels =
        (pure (h.digest levels x) : ExceptT Overdraft Option UInt64) :=
      fun x => Metered.run'_eq_of_run_eq (hends more x)
    refine ⟨hall, ?_⟩
    simp only [hfresh, List.mapM_pure]
    exact Metered.run'_eq_of_run_eq hall

end Heap

end SchemaGraph
