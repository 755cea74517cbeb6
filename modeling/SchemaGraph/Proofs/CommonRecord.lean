import SchemaGraph.Proofs.Comparison

/-!
# Comparisons in a common record

The fields of two schemas are compared one after another in one record, which holds the pair of the
two schemas from the start and in which each field finds the pairs that were met in the fields
before it. All these pairs count as equal while they are under comparison. A field that is compared
by itself starts from an empty record, and may come back to the two schemas around a cycle.

An answer for a single field may depend on what is recorded: it may be `true` only because of the
pair of the two schemas. The answer for all of them does not. If every field is equal by itself,
then no comparison of them finds a difference, whatever is recorded; and if the two schemas are
equal, then so are their fields.

* `Heap.compareAll_append`: pairs are compared one after another.
* `Heap.equalSchemas_iff_compareInTurn`: comparing their fields in turn decides the equality of two
  schemas.
* `Heap.equalSchemas_iff_equalFields`: so do comparisons of the fields by themselves.
-/

namespace SchemaGraph.Heap

variable {h : Heap} {recorded : List HandlePair}

/-! ## One after another -/

theorem fst_andThen {run : Bool × List HandlePair}
    {next : List HandlePair → Bool × List HandlePair} :
    (andThen run next).1 = (run.1 && (next run.2).1) := by
  obtain ⟨answer, record⟩ := run
  cases answer <;> rfl

theorem compareAll_append (h : Heap) (recorded first rest : List HandlePair) :
    h.compareAll recorded (first ++ rest) =
      andThen (h.compareAll recorded first) fun record => h.compareAll record rest := by
  fun_induction h.compareAll recorded first with
  | case1 recorded => rfl
  | case2 recorded p first met ih =>
    rw [List.cons_append, compareAll, if_pos met]
    exact ih
  | case3 recorded p first unmet hnone =>
    rw [List.cons_append, compareAll, if_neg unmet]
    split
    next => rfl
    next further hsome =>
      rw [hnone] at hsome
      cases hsome
  | case4 recorded p first unmet further hfurther ih =>
    rw [List.cons_append, compareAll, if_neg unmet]
    split
    next hnone =>
      rw [hfurther] at hnone
      cases hnone
    next further' hsome =>
      obtain rfl : further = further' := Option.some.inj (hfurther.symm.trans hsome)
      rw [← List.append_assoc]
      exact ih

/-- Comparing the fields in turn is comparing the pairs at corresponding places, if the field lists
agree in all else. -/
theorem fst_compareInTurn_zip {fs gs : List (Field Handle)} (hlength : fs.length = gs.length) :
    (h.compareInTurn recorded (fs.zip gs)).1 =
      match Field.correspondences? fs gs with
      | none => false
      | some pairs => (h.compareAll recorded pairs).1 := by
  induction fs generalizing gs recorded with
  | nil =>
    obtain rfl : gs = [] := List.eq_nil_of_length_eq_zero hlength.symm
    simp [compareInTurn, Field.correspondences?, compareAll]
  | cons f fs ih =>
    cases gs with
    | nil => cases hlength
    | cons g gs =>
      have htail : fs.length = gs.length := Nat.succ.inj hlength
      rw [List.zip_cons_cons, compareInTurn, fst_andThen, ih htail, compareFields,
        Field.correspondences?]
      cases f.correspondence? g with
      | none => rfl
      | some first =>
        cases Field.correspondences? fs gs with
        | none => exact Bool.and_false _
        | some rest =>
          show _ = (h.compareAll recorded (first ++ rest)).1
          rw [compareAll_append, fst_andThen]

/-! ## All fields of two schemas -/

theorem length_eq_of_correspondences? {fs gs : List (Field Handle)} {pairs : List HandlePair}
    (hpairs : Field.correspondences? fs gs = some pairs) : fs.length = gs.length := by
  have hforall₂ : List.Forall₂ (Field.Related fun _ _ => True) fs gs :=
    Field.forall₂_related_iff.mpr ⟨pairs, hpairs, fun _ _ => trivial⟩
  exact hforall₂.length_eq

theorem equalSchemas_of_ne {a b : Handle} (hne : a ≠ b) :
    h.equalSchemas a b =
      match Field.correspondences? (h.fields a) (h.fields b) with
      | none => false
      | some pairs => (h.compareAll [(a, b)] pairs).1 := by
  have unmet : ¬ (a = b ∨ (a, b) ∈ ([] : List HandlePair)) := by simp [hne]
  unfold equalSchemas compareSchemas
  rw [compareAll, if_neg unmet]
  split
  next hnone =>
    have hnone : Field.correspondences? (h.fields a) (h.fields b) = none := hnone
    rw [hnone]
  next further hsome =>
    have hsome : Field.correspondences? (h.fields a) (h.fields b) = some further := hsome
    rw [hsome, List.append_nil]

theorem equalSchemas_iff_compareInTurn (h : Heap) (a b : Handle) :
    h.equalSchemas a b = true ↔ (h.fields a).length = (h.fields b).length ∧
      (h.compareInTurn [(a, b)] ((h.fields a).zip (h.fields b))).1 = true := by
  have hpairs : h.equalSchemas a b = true ↔
      ∃ pairs, Field.correspondences? (h.fields a) (h.fields b) = some pairs ∧
        (h.compareAll [(a, b)] pairs).1 = true := by
    by_cases hab : a = b
    · subst hab
      -- No comparison takes place; it would find places with one schema on both sides.
      obtain ⟨pairs, hpairs, hbisim⟩ :=
        Field.forall₂_related_iff.mp (Bisimilar.refl h a).fields
      have hself : h.equalSchemas a a = true := equalSchemas_eq_true_iff.mpr (.refl h a)
      exact iff_of_true hself ⟨pairs, hpairs, compareAll_of_bisimilar hbisim⟩
    · rw [equalSchemas_of_ne hab]
      cases Field.correspondences? (h.fields a) (h.fields b) with
      | none => simp
      | some pairs => simp
  rw [hpairs]
  constructor
  · rintro ⟨pairs, hsome, hrun⟩
    have hlength := length_eq_of_correspondences? hsome
    refine ⟨hlength, ?_⟩
    rw [fst_compareInTurn_zip hlength, hsome]
    exact hrun
  · rintro ⟨hlength, hrun⟩
    rw [fst_compareInTurn_zip hlength] at hrun
    split at hrun
    next => cases hrun
    next pairs hsome => exact ⟨pairs, hsome, hrun⟩

theorem equalSchemas_iff_equalFields (h : Heap) (a b : Handle) :
    h.equalSchemas a b = true ↔
      List.Forall₂ (fun f g => h.equalFields f g = true) (h.fields a) (h.fields b) := by
  simp only [equalSchemas_eq_true_iff, equalFields_eq_true_iff]
  exact ⟨Bisimilar.fields, bisimilar_of_fields⟩

/-- **Assumptions change no answer.** Two schemas are equal exactly if they have one number of
fields and their fields are found equal in a common record that holds the two schemas from the
start; and exactly if they have one number of fields and the fields at each position are equal by
themselves, starting from an empty record. -/
theorem equalSchemas_field_by_field (h : Heap) (a b : Handle) :
    (h.equalSchemas a b = true ↔ (h.fields a).length = (h.fields b).length ∧
      (h.compareInTurn [(a, b)] ((h.fields a).zip (h.fields b))).1 = true) ∧
    (h.equalSchemas a b = true ↔ (h.fields a).length = (h.fields b).length ∧
      ∀ (i : Nat) (f g : Field Handle),
        (h.fields a)[i]? = some f → (h.fields b)[i]? = some g → h.equalFields f g = true) := by
  refine ⟨equalSchemas_iff_compareInTurn h a b, ?_⟩
  rw [equalSchemas_iff_equalFields, forall₂_iff_getElem?]

/-- A node that leads back to itself, with a value of some type. -/
def valueNode (self : Handle) (type : BasicType) : List (Field Handle) :=
  [⟨"next", .record self, none, .empty, true⟩, ⟨"value", .basic type, none, .empty, true⟩]

def twoNodes : Heap :=
  ⟨#[⟨.empty, .indexed (valueNode ⟨0⟩ .int), none, none, none⟩,
    ⟨.empty, .indexed (valueNode ⟨1⟩ .string), none, none, none⟩]⟩

-- The links of the nodes are equal in the common record only; the values decide the comparison.
example :
    (twoNodes.compareInTurn [(⟨0⟩, ⟨1⟩)]
      (((twoNodes.fields ⟨0⟩).zip (twoNodes.fields ⟨1⟩)).take 1)).1 = true ∧
    twoNodes.equalFields (valueNode ⟨0⟩ .int)[0] (valueNode ⟨1⟩ .string)[0] = false ∧
    twoNodes.equalSchemas ⟨0⟩ ⟨1⟩ = false := by cbv

end SchemaGraph.Heap
