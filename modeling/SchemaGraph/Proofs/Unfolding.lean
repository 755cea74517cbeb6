import Mathlib
import SchemaGraph.Digest.Budget
import SchemaGraph.Proofs.Comparison
import SchemaGraph.Proofs.Counting

/-!
# Digests of bisimilar schemas

A digest looks at finitely many levels of the tree that a schema unfolds to, and bisimilar schemas
unfold to one tree, however they close their cycles. The digest with a number of levels is taken by
recursion on that number, while bisimilarity has no such measure; so the two are brought together
level by level: what two references contribute at one level depends only on the field lists behind
them, which agree up to references that contribute the same at the level below.

* `Heap.digestSchema_eq_of_bisimilar` and its companions: one digest for bisimilar schemas, also in
  different heaps.
* `Heap.take_run`: a digest taken from a budget of levels is the digest with that number of levels,
  and the budget is left as it was found.
* `Heap.take_eq_of_equal`: equal schemas, fields and types have the same digest from every budget.
-/

namespace SchemaGraph

variable {ρ σ : Type}

/-! ## One level -/

namespace DataType

mutual

theorem Related.digest_eq {f : ρ → UInt64} {g : σ → UInt64} {t : DataType ρ} {u : DataType σ}
    (h : Related (fun r s => f r = g s) t u) : t.digest f = u.digest g := by
  cases h with
  | basic b => rfl
  | array h =>
    unfold digest
    rw [h.digest_eq]
  | map h =>
    unfold digest
    rw [h.digest_eq]
  | choice h => exact h.digestAll_eq _
  | record h => exact h

theorem RelatedAll.digestAll_eq {f : ρ → UInt64} {g : σ → UInt64} {ts : List (DataType ρ)}
    {us : List (DataType σ)} (h : RelatedAll (fun r s => f r = g s) ts us) (state : UInt64) :
    digestAll f state ts = digestAll g state us := by
  cases h with
  | nil => rfl
  | cons head tail =>
    unfold digestAll
    rw [head.digest_eq]
    exact tail.digestAll_eq _

end

end DataType

namespace Field

theorem Related.digest_eq {f : ρ → UInt64} {g : σ → UInt64} {a : Field ρ} {b : Field σ}
    (h : Related (fun r s => f r = g s) a b) : a.digest f = b.digest g := by
  unfold digest
  rw [h.name, h.dataType.digest_eq]

/-- The digest of a list of fields shows names and types only. -/
theorem digests_eq_of_slots {f : ρ → UInt64} {g : σ → UInt64} {as : List (Field ρ)}
    {bs : List (Field σ)}
    (h : List.Forall₂ (fun a b => a.name = b.name ∧
      a.dataType.Related (fun r s => f r = g s) b.dataType) as bs) :
    digests f as = digests g bs := by
  unfold digests absorbAll
  generalize fieldListSeed = state
  induction h generalizing state with
  | nil => rfl
  | cons head _ ih =>
    obtain ⟨hname, htype⟩ := head
    rw [List.foldl_cons, List.foldl_cons, hname, htype.digest_eq]
    exact ih _

theorem digests_eq_of_related {f : ρ → UInt64} {g : σ → UInt64} {as : List (Field ρ)}
    {bs : List (Field σ)} (h : List.Forall₂ (Related fun r s => f r = g s) as bs) :
    digests f as = digests g bs :=
  digests_eq_of_slots (h.imp fun _ _ related => ⟨related.name, related.dataType⟩)

end Field

/-! ## All levels -/

namespace Heap

variable {h k : Heap} {a b : Handle}

/-- Induction on the levels; a level passes from the field lists of two bisimilar schemas to
references that are bisimilar again. -/
theorem nestedDigest_eq_of_bisimilar (levels : Nat) (hab : Bisimilar h k a b) :
    h.nestedDigest levels a = k.nestedDigest levels b := by
  induction levels generalizing a b with
  | zero => rfl
  | succ levels ih =>
    unfold nestedDigest
    have hfields : Field.digests (h.nestedDigest levels) (h.fields a) =
        Field.digests (k.nestedDigest levels) (k.fields b) :=
      Field.digests_eq_of_related (Field.forall₂_related_mono (fun _ _ => ih) hab.fields)
    rw [hfields]

theorem digestSchema_eq_of_bisimilar (levels : Nat) (hab : Bisimilar h k a b) :
    h.digestSchema levels a = k.digestSchema levels b := by
  unfold digestSchema
  apply Field.digests_eq_of_related
  exact Field.forall₂_related_mono (fun _ _ => nestedDigest_eq_of_bisimilar levels) hab.fields

theorem digestField_eq_of_related (levels : Nat) {f g : Field Handle}
    (hfg : Field.Related (Bisimilar h k) f g) :
    h.digestField levels f = k.digestField levels g :=
  (hfg.mono fun _ _ => nestedDigest_eq_of_bisimilar levels).digest_eq

theorem digestType_eq_of_related (levels : Nat) {t u : DataType Handle}
    (htu : DataType.Related (Bisimilar h k) t u) :
    h.digestType levels t = k.digestType levels u :=
  (htu.mono fun _ _ => nestedDigest_eq_of_bisimilar levels).digest_eq

end Heap

/-! ## Digests from a budget -/

/-- What computations on a budget come to is what their runs show. -/
def Budgeted.semantics : Budgeted.counter.Semantics where
  Gives x levels a left := x.run levels = (a, left)
  pure _ _ := rfl
  bind := by
    intro α β x next a b levels left last hx hnext
    rw [StateT.run_bind, hx]
    exact hnext
  read _ := rfl
  lower _ := rfl
  raise _ := rfl

namespace Heap

/-- Below the bound the bound does not show: a level that is taken out is put back. -/
theorem enter_run (h : Heap) {bound levels : Nat} (hle : levels ≤ bound) (s : Handle) :
    (h.enter bound s).run levels = (h.nestedDigest levels s, levels) := by
  apply Budgeted.semantics.enterWith h
  intro _ s
  rw [Nat.sub_eq_zero_of_le hle]
  rfl

theorem take_run (h : Heap) (levels : Nat) (subject : Subject) :
    (h.take subject).run levels = (h.digest levels subject, levels) :=
  Budgeted.semantics.bind (Budgeted.semantics.read levels)
    (Budgeted.semantics.takeSubject (h.enter_run (Nat.le_refl levels)) subject)

theorem takeSchema_run (h : Heap) (s : Handle) (levels : Nat) :
    (h.takeSchema s).run levels = (h.digestSchema levels s, levels) :=
  h.take_run levels (.schema s)

theorem takeField_run (h : Heap) (f : Field Handle) (levels : Nat) :
    (h.takeField f).run levels = (h.digestField levels f, levels) :=
  h.take_run levels (.field f)

theorem takeType_run (h : Heap) (t : DataType Handle) (levels : Nat) :
    (h.takeType t).run levels = (h.digestType levels t, levels) :=
  h.take_run levels (.type t)

/-! ## Equality and digests -/

theorem freshDigest_eq_of_run {x y : Budgeted UInt64}
    (hrun : ∀ levels, x.run levels = y.run levels) : freshDigest x = freshDigest y := by
  rw [freshDigest, freshDigest, hrun]

/-- **Equal things have equal digests.** Whatever number of levels the budget holds at the start,
the digests of equal schemas, fields and types take the same course through it. -/
theorem take_eq_of_equal (h : Heap) :
    (∀ a b, h.equalSchemas a b = true →
      h.structuralHash a = h.structuralHash b ∧
      freshDigest (h.takeSchema a) = freshDigest (h.takeSchema b) ∧
      ∀ levels, (h.takeSchema a).run levels = (h.takeSchema b).run levels) ∧
    (∀ f g, h.equalFields f g = true →
      freshDigest (h.takeField f) = freshDigest (h.takeField g) ∧
      ∀ levels, (h.takeField f).run levels = (h.takeField g).run levels) ∧
    (∀ t u, h.equalTypes t u = true →
      freshDigest (h.takeType t) = freshDigest (h.takeType u) ∧
      ∀ levels, (h.takeType t).run levels = (h.takeType u).run levels) := by
  refine ⟨?_, ?_, ?_⟩
  · intro a b hab
    have hbisim := equalSchemas_eq_true_iff.mp hab
    have hrun : ∀ levels, (h.takeSchema a).run levels = (h.takeSchema b).run levels := by
      intro levels
      rw [takeSchema_run, takeSchema_run, digestSchema_eq_of_bisimilar levels hbisim]
    exact ⟨digestSchema_eq_of_bisimilar nestedDepth hbisim, freshDigest_eq_of_run hrun, hrun⟩
  · intro f g hfg
    have hrun : ∀ levels, (h.takeField f).run levels = (h.takeField g).run levels := by
      intro levels
      rw [takeField_run, takeField_run,
        digestField_eq_of_related levels (equalFields_eq_true_iff.mp hfg)]
    exact ⟨freshDigest_eq_of_run hrun, hrun⟩
  · intro t u htu
    have hrun : ∀ levels, (h.takeType t).run levels = (h.takeType u).run levels := by
      intro levels
      rw [takeType_run, takeType_run,
        digestType_eq_of_related levels (equalTypes_eq_true_iff.mp htu)]
    exact ⟨freshDigest_eq_of_run hrun, hrun⟩

theorem take_eq_loops :
    loops.equalSchemas ⟨0⟩ ⟨1⟩ = true ∧
    loops.equalFields ⟨"loop", .record ⟨0⟩, none, .empty, true⟩
      ⟨"loop", .record ⟨2⟩, none, .empty, true⟩ = true ∧
    loops.equalTypes (.array (.record ⟨0⟩)) (.array (.record ⟨1⟩)) = true ∧
    (∀ levels, (loops.takeSchema ⟨0⟩).run levels = (loops.takeSchema ⟨1⟩).run levels) ∧
    (∀ levels,
      (loops.takeField ⟨"loop", .record ⟨0⟩, none, .empty, true⟩).run levels =
        (loops.takeField ⟨"loop", .record ⟨2⟩, none, .empty, true⟩).run levels) ∧
    ∀ levels,
      (loops.takeType (.array (.record ⟨0⟩))).run levels =
        (loops.takeType (.array (.record ⟨1⟩))).run levels := by
  have hschemas : loops.equalSchemas ⟨0⟩ ⟨1⟩ = true := by cbv
  have hfields : loops.equalFields ⟨"loop", .record ⟨0⟩, none, .empty, true⟩
      ⟨"loop", .record ⟨2⟩, none, .empty, true⟩ = true := by cbv
  have htypes : loops.equalTypes (.array (.record ⟨0⟩)) (.array (.record ⟨1⟩)) = true := by cbv
  obtain ⟨ofSchemas, ofFields, ofTypes⟩ := take_eq_of_equal loops
  refine ⟨hschemas, hfields, htypes, ?_, ?_, ?_⟩
  · exact (ofSchemas _ _ hschemas).2.2
  · exact (ofFields _ _ hfields).2
  · exact (ofTypes _ _ htypes).2

end Heap

end SchemaGraph
