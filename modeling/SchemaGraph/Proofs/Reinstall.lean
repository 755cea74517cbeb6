import SchemaGraph.Proofs.Acceptance
import SchemaGraph.Proofs.Reachable
import SchemaGraph.Proofs.Unfolding

/-!
# Installing equal fields

A schema may be given a list of fields that is equal to its own, with nested schemas replaced by
equal ones, even by the schema itself. The change goes through the graph that justified it: other
schemas, the ones that are referred to among them, may lead to the schema that is changed. Still
nothing can be observed, because what was bisimilar before leads to what is there afterwards.

* `Heap.Alike`: every schema is bisimilar to what it has become.
* `Heap.Alike.equalSchemas_eq`, `Heap.Alike.structuralHash_eq`, `Heap.Alike.accepts_eq`: nothing
  tells two such heaps apart.
* `Heap.isBisimulation_setTable`: the bisimilarity of the heap before the change is a bisimulation
  from it to the heap after the change.
* `Workspace.Reachable.install_equal_fields`: the change is not refused, and cannot be observed.
-/

namespace SchemaGraph

namespace Heap

variable {h k : Heap}

/-- Every schema of the one heap unfolds like the schema in its place in the other heap. -/
def Alike (h k : Heap) : Prop :=
  ∀ s, Bisimilar h k s s

theorem Alike.equalSchemas_eq (hk : Alike h k) (a b : Handle) :
    k.equalSchemas a b = h.equalSchemas a b :=
  equalSchemas_eq_of_bisimilar (hk a) (hk b)

theorem Alike.structuralHash_eq (hk : Alike h k) (s : Handle) :
    k.structuralHash s = h.structuralHash s := by
  rw [structuralHash, structuralHash, digestSchema_eq_of_bisimilar nestedDepth (hk s)]

theorem Alike.accepts_eq (hk : Alike h k) (t : DataType Handle) (v : Value) :
    k.accepts t v = h.accepts t v :=
  (accepts_eq_of_related (.refl hk t) v).symm

/-! ## The change of one schema -/

/-- A schema that was bisimilar to the changed one has fields related to the old ones of it, and
these are related to the new ones. -/
theorem isBisimulation_setTable {s : Handle} {table : FieldTable Handle}
    (htable : List.Forall₂ (Field.Related (Bisimilar h h)) (h.fields s) table.fields) :
    IsBisimulation h (h.setTable s table) (Bisimilar h h) := by
  intro a b hab
  by_cases hb : b = s
  · subst hb
    by_cases inside : b ∈ h.handles
    · rw [fields, fields, table_setTable_self inside]
      have hcomp := Field.forall₂_related_comp hab.fields htable
      refine Field.forall₂_related_mono ?_ hcomp
      intro c d hcd
      obtain ⟨m, hcm, hmd⟩ := hcd
      exact hcm.trans hmd
    · rw [setTable, update_eq_self inside]
      exact hab.fields
  · have hfields : (h.setTable s table).fields b = h.fields b :=
      congrArg FieldTable.fields (table_setTable_of_ne table hb)
    rw [hfields]
    exact hab.fields

theorem alike_setTable {s : Handle} {table : FieldTable Handle}
    (htable : List.Forall₂ (Field.Related (Bisimilar h h)) (h.fields s) table.fields) :
    Alike h (h.setTable s table) := by
  intro x
  exact (isBisimulation_setTable htable).bisimilar (.refl h x)

theorem install_eq_ok_iff {s : Handle} {fs : List (Field Handle)} :
    h.install s fs = .ok k ↔
      (FieldTable.identifiers fs).Nodup ∧ k = h.setTable s (.indexed fs) := by
  unfold install
  rw [bind_eq_ok_iff]
  constructor
  · intro hrun
    obtain ⟨table, hbuild, hk⟩ := hrun
    obtain ⟨hnodup, rfl⟩ := FieldTable.build_eq_ok_iff.mp hbuild
    exact ⟨hnodup, (Except.ok.inj hk).symm⟩
  · intro hinstall
    obtain ⟨hnodup, rfl⟩ := hinstall
    exact ⟨_, FieldTable.build_eq_ok_iff.mpr ⟨hnodup, rfl⟩, rfl⟩

end Heap

namespace Workspace

variable {w : Workspace}

/-- **Installing equal fields changes nothing.** In a workspace that can be reached, fields that
are pairwise equal to those of a schema can be installed in their place, and schemas are equal,
have digests and accept values afterwards as they did before. -/
theorem Reachable.install_equal_fields (hw : w.Reachable) (s : Handle) (fs : List (Field Handle))
    (hfs : List.Forall₂ (fun f g => w.heap.equalFields f g = true) (w.heap.fields s) fs) :
    ∃ next, w.heap.install s fs = .ok next ∧
      (∀ x y, next.equalSchemas x y = w.heap.equalSchemas x y) ∧
      (∀ x, next.structuralHash x = w.heap.structuralHash x) ∧
      ∀ t v, next.accepts t v = w.heap.accepts t v := by
  have hrelated : List.Forall₂ (Field.Related (w.heap.Bisimilar w.heap)) (w.heap.fields s) fs :=
    hfs.imp fun _ _ => Heap.equalFields_eq_true_iff.mp
  have hnodup : (FieldTable.identifiers fs).Nodup := by
    rw [← FieldTable.identifiers_eq_of_related hrelated]
    exact (hw.wellFormed.table s).nodup_identifiers
  have halike : w.heap.Alike (w.heap.setTable s (.indexed fs)) := Heap.alike_setTable hrelated
  refine ⟨_, Heap.install_eq_ok_iff.mpr ⟨hnodup, rfl⟩, ?_, ?_, ?_⟩
  · exact halike.equalSchemas_eq
  · exact halike.structuralHash_eq
  · exact halike.accepts_eq

/-- A node with the schema of that name behind it. -/
def nodeSpecs (next : String) : List FieldSpec :=
  [.built ⟨"value", .basic .int, none, .empty, true⟩,
    .built ⟨"next", .record next, none, .empty, true⟩]

/-- A loop of one node, and a loop of two. -/
def looped : Workspace :=
  empty.run
    [.create "a" .empty, .create "b" .empty, .create "c" .empty,
      .install "a" (nodeSpecs "a"), .install "b" (nodeSpecs "c"), .install "c" (nodeSpecs "b")]

/-- The first node of the loop of two is redirected to the loop of one. -/
theorem install_looped :
    looped.Reachable ∧ looped.heap.fields ⟨1⟩ = Heap.node ⟨2⟩ ∧
    List.Forall₂ (fun f g => looped.heap.equalFields f g = true)
      (looped.heap.fields ⟨1⟩) (Heap.node ⟨0⟩) ∧
    ∃ next, looped.heap.install ⟨1⟩ (Heap.node ⟨0⟩) = .ok next ∧
      (∀ x y, next.equalSchemas x y = looped.heap.equalSchemas x y) ∧
      (∀ x, next.structuralHash x = looped.heap.structuralHash x) ∧
      ∀ t v, next.accepts t v = looped.heap.accepts t v := by
  have reachable : looped.Reachable := ⟨_, rfl⟩
  have hfields : looped.heap.fields ⟨1⟩ = Heap.node ⟨2⟩ := by cbv
  have hequal : List.Forall₂ (fun f g => looped.heap.equalFields f g = true)
      (looped.heap.fields ⟨1⟩) (Heap.node ⟨0⟩) := by
    rw [hfields]
    exact .cons (by cbv) (.cons (by cbv) .nil)
  exact ⟨reachable, hfields, hequal, reachable.install_equal_fields ⟨1⟩ (Heap.node ⟨0⟩) hequal⟩

end Workspace

end SchemaGraph
