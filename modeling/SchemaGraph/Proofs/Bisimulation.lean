import SchemaGraph.Heap.Basic
import SchemaGraph.Proofs.Relator

/-!
# Bisimilar schemas

A bisimulation between two heaps relates schemas whose field lists have one length and agree
position by position, where nested schemas at corresponding places are related again. Two schemas
are bisimilar if some bisimulation relates them. Nothing here walks along the heaps, so cycles,
sharing and the number of instances play no part.

The two heaps may be one and the same, or a heap before and after a change.

* `Heap.IsBisimulation`, `Heap.Bisimilar`: the two notions.
* `Heap.Bisimilar.fields`: bisimilar schemas have fields that agree up to bisimilarity, so
  bisimilarity is itself a bisimulation.
* `Heap.bisimilar_of_fields`: schemas with such fields are bisimilar.
* `Heap.Bisimilar.refl`, `Heap.Bisimilar.symm`, `Heap.Bisimilar.trans`: it is an equivalence, also
  from heap to heap.
-/

namespace SchemaGraph.Heap

/-- Related schemas have field lists of one length that agree position by position, up to the
relation itself. -/
def IsBisimulation (h k : Heap) (R : Handle → Handle → Prop) : Prop :=
  ∀ a b, R a b → List.Forall₂ (Field.Related R) (h.fields a) (k.fields b)

/-- Some bisimulation relates the two schemas. -/
def Bisimilar (h k : Heap) (a b : Handle) : Prop :=
  ∃ R, IsBisimulation h k R ∧ R a b

variable {h k l : Heap} {a b c : Handle}

theorem IsBisimulation.bisimilar {R : Handle → Handle → Prop} (hR : IsBisimulation h k R)
    (hab : R a b) : Bisimilar h k a b :=
  ⟨R, hR, hab⟩

theorem Bisimilar.fields (hab : Bisimilar h k a b) :
    List.Forall₂ (Field.Related (Bisimilar h k)) (h.fields a) (k.fields b) := by
  obtain ⟨R, hR, hab⟩ := hab
  exact Field.forall₂_related_mono (fun _ _ => hR.bisimilar) (hR a b hab)

/-- Schemas whose fields agree up to bisimilarity are bisimilar themselves, although a path from
the fields may lead back to them: the one pair that is new has its fields in the old relation. -/
theorem bisimilar_of_fields
    (hab : List.Forall₂ (Field.Related (Bisimilar h k)) (h.fields a) (k.fields b)) :
    Bisimilar h k a b := by
  have hsim : IsBisimulation h k fun c d => c = a ∧ d = b ∨ Bisimilar h k c d := by
    intro c d hcd
    have hfields : List.Forall₂ (Field.Related (Bisimilar h k)) (h.fields c) (k.fields d) := by
      rcases hcd with ⟨rfl, rfl⟩ | hcd
      · exact hab
      · exact hcd.fields
    exact Field.forall₂_related_mono (fun _ _ => .inr) hfields
  exact hsim.bisimilar (.inl ⟨rfl, rfl⟩)

theorem isBisimulation_bisimilar (h k : Heap) : IsBisimulation h k (Bisimilar h k) :=
  fun _ _ => Bisimilar.fields

theorem isBisimulation_eq (h : Heap) : IsBisimulation h h Eq := by
  rintro a _ rfl
  exact Field.forall₂_related_refl (fun _ => rfl) (h.fields a)

theorem IsBisimulation.symm {R : Handle → Handle → Prop} (hR : IsBisimulation h k R) :
    IsBisimulation k h fun b a => R a b := by
  intro b a hab
  exact Field.forall₂_related_symm (hR a b hab)

theorem IsBisimulation.comp {R S : Handle → Handle → Prop} (hR : IsBisimulation h k R)
    (hS : IsBisimulation k l S) : IsBisimulation h l (Relation.Comp R S) := by
  rintro a c ⟨b, hab, hbc⟩
  exact Field.forall₂_related_comp (hR a b hab) (hS b c hbc)

namespace Bisimilar

theorem refl (h : Heap) (a : Handle) : Bisimilar h h a a :=
  (isBisimulation_eq h).bisimilar rfl

theorem symm (hab : Bisimilar h k a b) : Bisimilar k h b a :=
  (isBisimulation_bisimilar h k).symm.bisimilar hab

theorem trans (hab : Bisimilar h k a b) (hbc : Bisimilar k l b c) : Bisimilar h l a c :=
  ((isBisimulation_bisimilar h k).comp (isBisimulation_bisimilar k l)).bisimilar ⟨b, hab, hbc⟩

end Bisimilar

end SchemaGraph.Heap
