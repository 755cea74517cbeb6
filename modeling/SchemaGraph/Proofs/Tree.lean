import Mathlib
import SchemaGraph.Proofs.Comparison

/-!
# The trees that schemas unfold to

A schema can be written out as a tree: its fields, with each nested schema replaced by the tree of
that schema, down to some depth, and with everything below cut off. Bisimilar schemas have one tree
at every depth, by induction on the depth. For the other direction, two schemas whose trees agree at
every depth have field lists that agree, and at corresponding places they lead to schemas whose
trees agree at every depth again: the places do not depend on the depth. So agreement of all trees
is a bisimulation, and a comparison that answers `false` is explained by some finite tree.

* `Tree`, `Heap.nestedTree`, `Heap.unfolding`: the trees.
* `Field.forall₂_related_iff_map_eq`: field lists are the same with their references replaced
  exactly if they agree and corresponding references have the same replacement.
* `Heap.isBisimulation_nestedTree_eq`: agreement at every depth is a bisimulation.
* `Heap.equalSchemas_iff_forall_unfolding_eq`: schemas are equal exactly if all their trees are.
-/

namespace SchemaGraph

/-- A schema with the schemas that it refers to written out down to some depth. -/
inductive Tree where
  /-- A nested schema below the last level. -/
  | cut
  | schema (fields : List (Field Tree))

namespace Heap

/-- The tree that stands for a nested schema when `depth` levels are written out. -/
def nestedTree (h : Heap) : (depth : Nat) → Handle → Tree
  | 0, _ => .cut
  | depth + 1, s => .schema ((h.fields s).map (Field.mapReferences (h.nestedTree depth)))

/-- The tree of a schema with `depth` levels of nested schemas written out. -/
def unfolding (h : Heap) (depth : Nat) (s : Handle) : Tree :=
  .schema ((h.fields s).map (Field.mapReferences (h.nestedTree depth)))

end Heap

/-! ## Replaced references -/

variable {ρ σ τ : Type} {f : ρ → τ} {g : σ → τ}

namespace DataType

mutual

theorem Related.mapReferences_eq {t : DataType ρ} {u : DataType σ}
    (h : Related (fun r s => f r = g s) t u) : t.mapReferences f = u.mapReferences g := by
  cases h with
  | basic b => rfl
  | array h => exact congrArg array h.mapReferences_eq
  | map h => exact congrArg map h.mapReferences_eq
  | choice h => exact congrArg choice h.mapReferencesAll_eq
  | record h => exact congrArg record h

theorem RelatedAll.mapReferencesAll_eq {ts : List (DataType ρ)} {us : List (DataType σ)}
    (h : RelatedAll (fun r s => f r = g s) ts us) :
    mapReferencesAll f ts = mapReferencesAll g us := by
  cases h with
  | nil => rfl
  | cons head tail => exact congrArg₂ List.cons head.mapReferences_eq tail.mapReferencesAll_eq

end

mutual

theorem related_of_mapReferences_eq (t : DataType ρ) (u : DataType σ)
    (h : t.mapReferences f = u.mapReferences g) : Related (fun r s => f r = g s) t u := by
  match t, u with
  | .basic a, .basic b =>
    obtain rfl : a = b := basic.inj h
    exact .basic a
  | .array t, .array u => exact .array (related_of_mapReferences_eq t u (array.inj h))
  | .map t, .map u => exact .map (related_of_mapReferences_eq t u (map.inj h))
  | .choice ts, .choice us => exact .choice (relatedAll_of_mapReferencesAll_eq ts us (choice.inj h))
  | .record r, .record s => exact .record (record.inj h)

theorem relatedAll_of_mapReferencesAll_eq (ts : List (DataType ρ)) (us : List (DataType σ))
    (h : mapReferencesAll f ts = mapReferencesAll g us) :
    RelatedAll (fun r s => f r = g s) ts us := by
  match ts, us with
  | [], [] => exact .nil
  | t :: ts, u :: us =>
    obtain ⟨hhead, htail⟩ := List.cons.inj h
    exact .cons (related_of_mapReferences_eq t u hhead)
      (relatedAll_of_mapReferencesAll_eq ts us htail)

end

end DataType

namespace Field

theorem related_iff_mapReferences_eq {a : Field ρ} {b : Field σ} :
    Related (fun r s => f r = g s) a b ↔ a.mapReferences f = b.mapReferences g := by
  unfold mapReferences
  rw [Field.mk.injEq]
  constructor
  · intro h
    exact ⟨h.name, h.dataType.mapReferences_eq, h.defaultValue, h.aliases, h.nullable⟩
  · rintro ⟨hname, htype, hdefault, haliases, hnullable⟩
    exact ⟨hname, hnullable, haliases, hdefault, DataType.related_of_mapReferences_eq _ _ htype⟩

theorem forall₂_related_iff_map_eq {as : List (Field ρ)} {bs : List (Field σ)} :
    List.Forall₂ (Related fun r s => f r = g s) as bs ↔
      as.map (mapReferences f) = bs.map (mapReferences g) := by
  rw [← List.forall₂_eq_eq_eq, List.forall₂_map_left_iff, List.forall₂_map_right_iff]
  constructor
  · intro h
    exact h.imp fun _ _ => related_iff_mapReferences_eq.mp
  · intro h
    exact h.imp fun _ _ => related_iff_mapReferences_eq.mpr

/-- The places of the references do not depend on the relation between them. -/
theorem forall₂_related_forall {ι : Type} [Nonempty ι] {R : ι → ρ → σ → Prop}
    {as : List (Field ρ)} {bs : List (Field σ)} (h : ∀ i, List.Forall₂ (Related (R i)) as bs) :
    List.Forall₂ (Related fun r s => ∀ i, R i r s) as bs := by
  obtain ⟨i⟩ := ‹Nonempty ι›
  obtain ⟨pairs, hpairs, -⟩ := forall₂_related_iff.mp (h i)
  refine forall₂_related_iff.mpr ⟨pairs, hpairs, ?_⟩
  intro p hp j
  obtain ⟨pairs', hpairs', hR⟩ := forall₂_related_iff.mp (h j)
  obtain rfl : pairs = pairs' := Option.some.inj (hpairs.symm.trans hpairs')
  exact hR p hp

end Field

/-! ## Depth by depth -/

namespace Heap

variable {h k : Heap} {a b : Handle}

theorem nestedTree_succ (h : Heap) (depth : Nat) (s : Handle) :
    h.nestedTree (depth + 1) s = h.unfolding depth s := rfl

theorem unfolding_eq_iff {depth : Nat} :
    h.unfolding depth a = k.unfolding depth b ↔
      List.Forall₂ (Field.Related fun c d => h.nestedTree depth c = k.nestedTree depth d)
        (h.fields a) (k.fields b) := by
  rw [unfolding, unfolding, Tree.schema.injEq, Field.forall₂_related_iff_map_eq]

theorem nestedTree_eq_of_bisimilar (depth : Nat) (hab : Bisimilar h k a b) :
    h.nestedTree depth a = k.nestedTree depth b := by
  induction depth generalizing a b with
  | zero => rfl
  | succ depth ih =>
    rw [nestedTree_succ, nestedTree_succ, unfolding_eq_iff]
    exact Field.forall₂_related_mono (fun _ _ => ih) hab.fields

/-- A tree shows all that a less deep one shows. -/
theorem nestedTree_eq_of_succ {depth : Nat}
    (heq : h.nestedTree (depth + 1) a = k.nestedTree (depth + 1) b) :
    h.nestedTree depth a = k.nestedTree depth b := by
  induction depth generalizing a b with
  | zero => rfl
  | succ depth ih =>
    rw [nestedTree_succ, nestedTree_succ, unfolding_eq_iff] at heq ⊢
    exact Field.forall₂_related_mono (fun _ _ => ih) heq

theorem unfolding_eq_of_le {depth deeper : Nat} (hle : depth ≤ deeper)
    (heq : h.unfolding deeper a = k.unfolding deeper b) :
    h.unfolding depth a = k.unfolding depth b := by
  induction hle with
  | refl => exact heq
  | step _ ih => exact ih (nestedTree_eq_of_succ heq)

/-! ## All depths -/

theorem isBisimulation_nestedTree_eq (h k : Heap) :
    IsBisimulation h k fun a b => ∀ depth, h.nestedTree depth a = k.nestedTree depth b := by
  intro a b hab
  apply Field.forall₂_related_forall
  intro depth
  exact unfolding_eq_iff.mp (hab (depth + 1))

theorem bisimilar_iff_forall_unfolding_eq :
    Bisimilar h k a b ↔ ∀ depth, h.unfolding depth a = k.unfolding depth b := by
  constructor
  · intro hab depth
    exact nestedTree_eq_of_bisimilar (depth + 1) hab
  · intro hab
    refine (isBisimulation_nestedTree_eq h k).bisimilar ?_
    intro depth
    exact nestedTree_eq_of_succ (hab depth)

/-- **Equality of unfoldings.** Two schemas are equal exactly if they unfold to one tree at every
depth. If they are not equal, then their trees differ at some depth and at every greater one. -/
theorem equalSchemas_iff_forall_unfolding_eq (h : Heap) (a b : Handle) :
    (h.equalSchemas a b = true ↔ ∀ depth, h.unfolding depth a = h.unfolding depth b) ∧
    (h.equalSchemas a b = false ↔
      ∃ depth, ∀ deeper, depth ≤ deeper → h.unfolding deeper a ≠ h.unfolding deeper b) := by
  have hiff : h.equalSchemas a b = true ↔ ∀ depth, h.unfolding depth a = h.unfolding depth b := by
    rw [equalSchemas_eq_true_iff, bisimilar_iff_forall_unfolding_eq]
  refine ⟨hiff, ?_⟩
  rw [← Bool.not_eq_true, hiff, not_forall]
  constructor
  · rintro ⟨depth, hne⟩
    refine ⟨depth, ?_⟩
    intro deeper hle heq
    exact hne (unfolding_eq_of_le hle heq)
  · rintro ⟨depth, hne⟩
    exact ⟨depth, hne depth (Nat.le_refl depth)⟩

/-- A loop of one node, and a chain of two nodes that ends in a schema without fields. -/
def chain : Heap :=
  ⟨#[⟨.empty, .indexed (node ⟨0⟩), none, none, none⟩,
    ⟨.empty, .indexed (node ⟨2⟩), none, none, none⟩,
    ⟨.empty, .indexed (node ⟨3⟩), none, none, none⟩,
    ⟨.empty, .empty, none, none, none⟩]⟩

/-- The end of the chain does not show before the second level. -/
theorem unfolding_chain :
    chain.unfolding 1 ⟨0⟩ = chain.unfolding 1 ⟨1⟩ ∧ chain.equalSchemas ⟨0⟩ ⟨1⟩ = false ∧
    ∃ depth, ∀ deeper, depth ≤ deeper →
      chain.unfolding deeper ⟨0⟩ ≠ chain.unfolding deeper ⟨1⟩ := by
  have hdiffer : chain.equalSchemas ⟨0⟩ ⟨1⟩ = false := by cbv
  exact ⟨rfl, hdiffer, (equalSchemas_iff_forall_unfolding_eq chain ⟨0⟩ ⟨1⟩).2.mp hdiffer⟩

end Heap

end SchemaGraph
