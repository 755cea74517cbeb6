import SchemaGraph.Proofs.Reachable

/-!
# Handles stand for schemas

A handle gets into a workspace under the name of a schema, or with a field type that was written
with such names. Instances are never taken away. So every handle that a program can come by stands
for an instance, also after the last name of the schema was forgotten and its handle is left in
field types only: it is never the empty schema that `Heap.table` reads behind a handle without an
instance.

* `Workspace.Mentions`: the handles that a program can come by.
* `DataType.exists_of_mem_resolve`: a type that is written with names mentions only what they stand
  for.
* `Workspace.Reachable.mem_handles`: the handles that are mentioned stand for instances.
-/

namespace SchemaGraph

namespace DataType

variable {ρ σ ε : Type} {f : ρ → Except ε σ} {r : σ}

mutual

theorem exists_of_mem_resolve : ∀ (t : DataType ρ) {u : DataType σ}, t.resolve f = .ok u →
    r ∈ u.references → ∃ n ∈ t.references, f n = .ok r
  | .basic b, u, h, hr => by
    obtain rfl : basic b = u := Except.ok.inj h
    cases hr
  | .array t, u, h, hr => by
    obtain ⟨t', ht, rfl⟩ := map_eq_ok_iff.mp h
    exact exists_of_mem_resolve t ht hr
  | .map t, u, h, hr => by
    obtain ⟨t', ht, rfl⟩ := map_eq_ok_iff.mp h
    exact exists_of_mem_resolve t ht hr
  | .choice ts, u, h, hr => by
    obtain ⟨ts', hts, rfl⟩ := map_eq_ok_iff.mp h
    exact exists_of_mem_resolveAll ts hts hr
  | .record n, u, h, hr => by
    obtain ⟨s, hs, rfl⟩ := map_eq_ok_iff.mp h
    obtain rfl : r = s := List.mem_singleton.mp hr
    exact ⟨n, List.mem_cons_self, hs⟩

theorem exists_of_mem_resolveAll : ∀ (ts : List (DataType ρ)) {us : List (DataType σ)},
    resolveAll f ts = .ok us → r ∈ referencesAll us → ∃ n ∈ referencesAll ts, f n = .ok r
  | [], us, h, hr => by
    obtain rfl : [] = us := Except.ok.inj h
    cases hr
  | t :: ts, us, h, hr => by
    obtain ⟨t', ht, h⟩ := bind_eq_ok_iff.mp h
    obtain ⟨ts', hts, h⟩ := bind_eq_ok_iff.mp h
    obtain rfl : t' :: ts' = us := Except.ok.inj h
    rcases List.mem_append.mp hr with hr | hr
    · obtain ⟨n, hn, hf⟩ := exists_of_mem_resolve t ht hr
      exact ⟨n, List.mem_append_left _ hn, hf⟩
    · obtain ⟨n, hn, hf⟩ := exists_of_mem_resolveAll ts hts hr
      exact ⟨n, List.mem_append_right _ hn, hf⟩

end

end DataType

namespace Workspace

variable {w next : Workspace} {c : Command} {s : Handle}

/-- A handle that a name stands for, or that occurs in the type of a field. -/
inductive Mentions (w : Workspace) : Handle → Prop
  | named {s : Handle} (names : w.Names s) : Mentions w s
  | inType {f : Field Handle} {s : Handle} (uses : w.Uses f)
      (mem : s ∈ f.dataType.references) : Mentions w s

theorem mem_handles_of_evolves {heap : Heap} (h : w.Evolves c heap) (hs : s ∈ w.heap.handles) :
    s ∈ heap.handles := by
  cases h with
  | unchanged => exact hs
  | added => exact Heap.mem_handles_add_of_mem _ hs
  | named | installed | removed | renamed =>
    rw [← Heap.handles_update] at hs
    exact hs

/-- A field that is built mentions only schemas that have names. -/
theorem names_of_built {draft : Field String} {f : Field Handle}
    (h : w.field (.built draft) = .ok f) (hs : s ∈ f.dataType.references) : w.Names s := by
  obtain ⟨dataType, htype, rfl, -, -⟩ := field_built_eq_ok_iff.mp h
  obtain ⟨name, -, hname⟩ := DataType.exists_of_mem_resolve _ htype hs
  exact ⟨name, schema_eq_ok_iff.mp hname⟩

theorem not_mentions_empty : ¬ empty.Mentions s := by
  intro hs
  cases hs with
  | named names =>
    obtain ⟨name, hname⟩ := names
    have hname : (∅ : Std.TreeMap String Handle)[name]? = some s := hname
    simp at hname
  | inType uses mem => exact not_uses_empty uses

theorem mem_handles_of_advances (hw : ∀ s, w.Mentions s → s ∈ w.heap.handles)
    (h : w.Advances c next) : ∀ s, next.Mentions s → s ∈ next.heap.handles := by
  have grows : ∀ s, w.Mentions s → s ∈ next.heap.handles := fun s hs =>
    mem_handles_of_evolves h.heap (hw s hs)
  have hfields : ∀ f, next.Uses f → ∀ s ∈ f.dataType.references, s ∈ next.heap.handles := by
    refine h.forall_uses ?_ ?_ ?_
    · intro f hf s hs
      exact grows s (.inType hf hs)
    · intro draft f _ hf s hs
      exact grows s (.named (names_of_built hf hs))
    · intro f g newName hg hf
      obtain ⟨-, rfl⟩ := Field.renamed_eq_ok_iff.mp hg
      exact hf
  intro s hs
  cases hs with
  | named names =>
    obtain ⟨name, hname⟩ := names
    rcases h.schemas name s hname with names | hs
    · exact grows s (.named names)
    · exact hs
  | inType uses mem => exact hfields _ uses s mem

/-- No handle leads nowhere. -/
theorem Reachable.mem_handles (hw : w.Reachable) (hs : w.Mentions s) : s ∈ w.heap.handles := by
  obtain ⟨commands, rfl⟩ := hw
  have hempty : ∀ s, empty.Mentions s → s ∈ empty.heap.handles := fun _ hs =>
    absurd hs not_mentions_empty
  exact run_induction mem_handles_of_advances hempty commands s hs

end Workspace

end SchemaGraph
