import Mathlib
import SchemaGraph.Proofs.Acceptance
import SchemaGraph.Proofs.Comparison

/-!
# Equality as an equivalence, and what respects it

Each comparison keeps a record of its own, distinguishes a left and a right side, and stops where it
finds a pair recorded; nothing in this is symmetric, and the records of two comparisons cannot be
put together. What the comparisons decide is an equivalence all the same, because it is
bisimilarity, lifted from schemas to types and to fields. Values are compared without any record;
floats count as equal if their words are, so that a NaN equals itself.

Equal types accept the same values. A value of a record type is looked at by the names of its keys,
of which a comparison knows nothing, but related field tables find related fields.

* `DataType.related_equivalence`, `Field.related_equivalence`: lifting keeps equivalences.
* `Heap.equal_equivalence`: equality of schemas, fields, types and values is an equivalence.
* `Heap.accepts_eq_of_equal`: equal types, and types of equal schemas, accept the same values.
-/

namespace SchemaGraph

/-! ## Equality is an equivalence -/

section Lifting

variable {ρ : Type} {R : ρ → ρ → Prop}

theorem DataType.related_equivalence (hR : Equivalence R) :
    Equivalence (DataType.Related R) where
  refl := .refl hR.refl
  symm htu := htu.symm.mono fun _ _ => hR.symm
  trans htu huv := by
    refine (htu.comp huv).mono ?_
    rintro r s ⟨m, hrm, hms⟩
    exact hR.trans hrm hms

theorem Field.related_equivalence (hR : Equivalence R) : Equivalence (Field.Related R) where
  refl := .refl hR.refl
  symm hfg := hfg.symm.mono fun _ _ => hR.symm
  trans hfg hgk := by
    refine (hfg.comp hgk).mono ?_
    rintro r s ⟨m, hrm, hms⟩
    exact hR.trans hrm hms

end Lifting

theorem Value.beq_equivalence : Equivalence fun v w : Value => (v == w) = true := by
  simp only [Value.beq_iff_eq]
  exact eq_equivalence

-- The words of the two NaNs differ in their payloads, those of the two zeros in their signs.
example :
    (Value.array [.float ⟨0x7ff8000000000001⟩] == .array [.float ⟨0x7ff8000000000001⟩],
      Value.array [.float ⟨0x7ff8000000000001⟩] == .array [.float ⟨0x7ff8000000000002⟩],
      Value.float ⟨0x8000000000000000⟩ == .float ⟨0⟩) = (true, false, false) := by cbv

namespace Heap

theorem bisimilar_equivalence (h : Heap) : Equivalence (Bisimilar h h) where
  refl := .refl h
  symm := .symm
  trans := .trans

/-- **Equality is an equivalence**, on schemas, on fields, on types and on values. -/
theorem equal_equivalence (h : Heap) :
    (Equivalence fun a b : Handle => h.equalSchemas a b = true) ∧
    (Equivalence fun f g : Field Handle => h.equalFields f g = true) ∧
    (Equivalence fun t u : DataType Handle => h.equalTypes t u = true) ∧
    (Equivalence fun v w : Value => (v == w) = true) := by
  simp only [equalSchemas_eq_true_iff, equalFields_eq_true_iff, equalTypes_eq_true_iff]
  have hbisimilar := h.bisimilar_equivalence
  exact ⟨hbisimilar, Field.related_equivalence hbisimilar,
    DataType.related_equivalence hbisimilar, Value.beq_equivalence⟩

/-! ## Acceptance respects equality -/

/-- **Equal types accept the same values.** This holds of record types in particular, if their
schemas are equal. -/
theorem accepts_eq_of_equal (h : Heap) :
    (∀ t u, h.equalTypes t u = true → ∀ v, h.accepts t v = h.accepts u v) ∧
    ∀ a b, h.equalSchemas a b = true → ∀ v, h.accepts (.record a) v = h.accepts (.record b) v := by
  constructor
  · intro t u htu v
    exact accepts_eq_of_related (equalTypes_eq_true_iff.mp htu) v
  · intro a b hab v
    exact accepts_eq_of_related (.record (equalSchemas_eq_true_iff.mp hab)) v

/-- The fields of a node of a tree, which may be written with short keys. -/
def treeNode (below : Handle) : List (Field Handle) :=
  [⟨"value", .basic .int, none, .ofList ["v"], false⟩,
    ⟨"below", .choice [.basic .boolean, .array (.record below)], none, .ofList ["b"], true⟩]

/-- A node that leads to itself, and two nodes that lead to each other. -/
def rings : Heap :=
  ⟨#[⟨.empty, .indexed (treeNode ⟨0⟩), none, none, none⟩,
    ⟨.empty, .indexed (treeNode ⟨2⟩), none, none, none⟩,
    ⟨.empty, .indexed (treeNode ⟨1⟩), none, none, none⟩]⟩

/-- A tree with keys of both kinds. -/
def mixedKeys : Value :=
  .map [("b", .array [.map [("below", .boolean false), ("v", .int 2)]]), ("value", .int 1)]

theorem accepts_rings :
    rings.equalTypes (.map (.record ⟨0⟩)) (.map (.record ⟨1⟩)) = true ∧
    rings.equalSchemas ⟨0⟩ ⟨2⟩ = true ∧
    rings.accepts (.map (.record ⟨1⟩)) (.map [("tree", mixedKeys)]) = true ∧
    rings.accepts (.record ⟨2⟩) mixedKeys = true := by
  have htypes : rings.equalTypes (.map (.record ⟨0⟩)) (.map (.record ⟨1⟩)) = true := by cbv
  have hschemas : rings.equalSchemas ⟨0⟩ ⟨2⟩ = true := by cbv
  obtain ⟨ofTypes, ofSchemas⟩ := accepts_eq_of_equal rings
  refine ⟨htypes, hschemas, ?_, ?_⟩
  · rw [← ofTypes _ _ htypes]
    cbv
  · rw [← ofSchemas _ _ hschemas]
    cbv

end Heap

end SchemaGraph
