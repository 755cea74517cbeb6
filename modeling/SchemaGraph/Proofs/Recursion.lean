import SchemaGraph.Proofs.Traversal
import SchemaGraph.Recursion

/-!
# What the search for a cycle finds

The search for a cycle takes one pending schema after another, goes on from those that were not
visited, and stops at the target. That it finds the target wherever there is a path to it rests on
what it has left behind: no visited schema is the target, and each leads on only to schemas that
are visited or pending (`Heap.Explored`). If nothing is pending any more, then no path leads out of
the visited schemas.

* `Heap.exists_leads_of_reaches`: the search finds only what some path leads to.
* `Heap.not_leads_of_reaches`: it misses no path.
* `Heap.isRecursive_eq_true_iff`: a schema is recursive exactly if one that it refers to leads
  back to it.
-/

namespace SchemaGraph.Heap

variable {h : Heap} {target : Handle} {visited pending : List Handle}

theorem Leads.of_reference {s t u : Handle} (href : t ∈ h.references s) (hlead : h.Leads t u) :
    h.Leads s u :=
  Relation.ReflTransGen.head href hlead

/-- The schemas of a set refer only to schemas of the set. -/
def Closed (h : Heap) (S : Set Handle) : Prop :=
  ∀ s ∈ S, ∀ t ∈ h.references s, t ∈ S

theorem Closed.mem_of_leads {S : Set Handle} {s t : Handle} (hclosed : h.Closed S) (hs : s ∈ S)
    (hlead : h.Leads s t) : t ∈ S := by
  induction hlead with
  | refl => exact hs
  | tail _ href ih => exact hclosed _ ih _ href

theorem exists_leads_of_reaches (hrun : h.reaches target visited pending = true) :
    ∃ s ∈ pending, h.Leads s target := by
  fun_induction h.reaches target visited pending with
  | case1 visited => cases hrun
  | case2 visited pending => exact ⟨target, List.mem_cons_self, .refl⟩
  | case3 visited s pending hne hseen ih =>
    obtain ⟨t, ht, hlead⟩ := ih hrun
    exact ⟨t, List.mem_cons_of_mem _ ht, hlead⟩
  | case4 visited s pending hne hnew ih =>
    obtain ⟨t, ht, hlead⟩ := ih hrun
    rcases List.mem_append.mp ht with ht | ht
    · exact ⟨s, List.mem_cons_self, hlead.of_reference ht⟩
    · exact ⟨t, List.mem_cons_of_mem _ ht, hlead⟩

/-- The target is not among the visited schemas, and these refer only to visited or pending
ones. -/
structure Explored (h : Heap) (target : Handle) (visited pending : List Handle) : Prop where
  target_not_mem : target ∉ visited
  closed : ∀ s ∈ visited, ∀ t ∈ h.references s, t ∈ visited ∨ t ∈ pending

theorem explored_nil (h : Heap) (target : Handle) (pending : List Handle) :
    h.Explored target [] pending where
  target_not_mem := List.not_mem_nil
  closed _ hs := absurd hs List.not_mem_nil

theorem Explored.skip {s : Handle} (he : h.Explored target visited (s :: pending))
    (hs : s ∈ visited) : h.Explored target visited pending where
  target_not_mem := he.target_not_mem
  closed r hr t ht := by
    rcases he.closed r hr t ht with ht | ht
    · exact .inl ht
    · rcases List.mem_cons.mp ht with rfl | ht
      · exact .inl hs
      · exact .inr ht

theorem Explored.expand {s : Handle} (he : h.Explored target visited (s :: pending))
    (hne : s ≠ target) : h.Explored target (s :: visited) (h.references s ++ pending) where
  target_not_mem := by
    intro hmem
    rcases List.mem_cons.mp hmem with heq | hmem
    · exact hne heq.symm
    · exact he.target_not_mem hmem
  closed r hr t ht := by
    rcases List.mem_cons.mp hr with rfl | hr
    · exact .inr (List.mem_append_left _ ht)
    · rcases he.closed r hr t ht with ht | ht
      · exact .inl (List.mem_cons_of_mem _ ht)
      · rcases List.mem_cons.mp ht with rfl | ht
        · exact .inl List.mem_cons_self
        · exact .inr (List.mem_append_right _ ht)

theorem not_leads_of_reaches (he : h.Explored target visited pending)
    (hrun : h.reaches target visited pending = false) :
    ∀ s, s ∈ visited ∨ s ∈ pending → ¬ h.Leads s target := by
  fun_induction h.reaches target visited pending with
  | case1 visited =>
    intro s hs hlead
    have hclosed : h.Closed {r | r ∈ visited} := by
      intro r hr t ht
      exact (he.closed r hr t ht).resolve_right List.not_mem_nil
    have hvisited : s ∈ visited := hs.resolve_right List.not_mem_nil
    exact he.target_not_mem (hclosed.mem_of_leads hvisited hlead)
  | case2 visited pending => cases hrun
  | case3 visited s pending hne hseen ih =>
    intro r hr
    apply ih (he.skip hseen) hrun
    rcases hr with hr | hr
    · exact .inl hr
    · rcases List.mem_cons.mp hr with rfl | hr
      · exact .inl hseen
      · exact .inr hr
  | case4 visited s pending hne hnew ih =>
    intro r hr
    apply ih (he.expand hne) hrun
    rcases hr with hr | hr
    · exact .inl (List.mem_cons_of_mem _ hr)
    · rcases List.mem_cons.mp hr with rfl | hr
      · exact .inl List.mem_cons_self
      · exact .inr (List.mem_append_right _ hr)

theorem reaches_nil_eq_true_iff :
    h.reaches target [] pending = true ↔ ∃ s ∈ pending, h.Leads s target := by
  constructor
  · exact exists_leads_of_reaches
  · rintro ⟨s, hs, hlead⟩
    by_contra hrun
    have hrun : h.reaches target [] pending = false := Bool.eq_false_of_not_eq_true hrun
    exact not_leads_of_reaches (explored_nil h target pending) hrun s (.inr hs) hlead

/-- A schema is recursive exactly if one that it refers to leads back to it. -/
theorem isRecursive_eq_true_iff {s : Handle} :
    h.isRecursive s = true ↔ ∃ t ∈ h.references s, h.Leads t s :=
  reaches_nil_eq_true_iff

end SchemaGraph.Heap
