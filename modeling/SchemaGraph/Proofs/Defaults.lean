import Mathlib.Data.List.Induction
import SchemaGraph.Proofs.Reachable
import SchemaGraph.Proofs.Renaming

/-!
# Default values in the course of a run

A default value is looked at once, when its field is built. Which values a record type accepts
depends on the fields of the nested schema, and these may be replaced afterwards; neither the field
nor the schemas that hold it are looked at again. So the default value of a field need not be one of
its type any more.

What remains is a statement about the past. Every field of a schema was built at some point of the
run, and has at most been renamed since. Its default value was accepted then, and it still is if no
schema that its type leads to has got other fields since.

* `Workspace.BuiltBy`: the command of a run that a field goes back to.
* `Workspace.exists_builtBy`: every field in use goes back to one.
* `Workspace.default_accepted_when_built`: what this says about default values.
* `Workspace.default_refused_later`: why the current workspace cannot stand for the earlier one.
-/

namespace SchemaGraph.Workspace

variable {commands : List Command} {f g : Field Handle}

/-! ## Fields that were built -/

/-- A command of a run built the field, in the workspace that the commands before it led to. The
field may have been renamed since. -/
def BuiltBy (before : List Command) (c : Command) (f : Field Handle) : Prop :=
  ∃ draft g, .built draft ∈ c.specs ∧ (empty.run before).field (.built draft) = .ok g ∧
    f = { g with name := f.name }

theorem BuiltBy.renamed {before : List Command} {c : Command} {newName : String}
    (hf : BuiltBy before c f) (h : f.renamed newName = .ok g) : BuiltBy before c g := by
  obtain ⟨-, rfl⟩ := Field.renamed_eq_ok_iff.mp h
  obtain ⟨draft, built, hmem, hbuilt, heq⟩ := hf
  refine ⟨draft, built, hmem, hbuilt, ?_⟩
  rw [heq]

/-- Building a field is the moment at which its default value is looked at. -/
theorem BuiltBy.accepts_default {before : List Command} {c : Command} {v : Value}
    (hf : BuiltBy before c f) (hv : f.defaultValue = some v) :
    (empty.run before).heap.accepts f.dataType v = true := by
  obtain ⟨draft, g, -, hg, heq⟩ := hf
  obtain ⟨-, -, -, -, hdefault⟩ := field_built_eq_ok_iff.mp hg
  rw [heq] at hv ⊢
  exact hdefault v hv

/-- Every field that is in use after a run was built in its course. -/
theorem exists_builtBy (commands : List Command) :
    ∀ f, (empty.run commands).Uses f →
      ∃ before c, before ++ [c] <+: commands ∧ BuiltBy before c f := by
  induction commands using List.reverseRecOn with
  | nil => exact fun f hf => absurd hf not_uses_empty
  | append_singleton commands c ih =>
    rw [run_concat]
    refine (advances_step _ c).forall_uses ?_ ?_ ?_
    · intro f hf
      obtain ⟨before, c', hprefix, hbuilt⟩ := ih f hf
      exact ⟨before, c', hprefix.trans (List.prefix_append _ _), hbuilt⟩
    · intro draft f hmem hf
      exact ⟨commands, c, List.prefix_refl _, draft, f, hmem, hf, rfl⟩
    · rintro f g newName hg ⟨before, c', hprefix, hbuilt⟩
      exact ⟨before, c', hprefix, hbuilt.renamed hg⟩

/-! ## Their default values -/

/-- **A default value was accepted when its field was built.** Every field of a schema was built by
some command of the run and has at most been renamed since. Its default value was one of its type
then; it is one now unless a schema that the type leads to has got other fields since. -/
theorem default_accepted_when_built (commands : List Command) (s : Handle) (f : Field Handle)
    (hf : f ∈ (empty.run commands).heap.fields s) :
    ∃ before c, before ++ [c] <+: commands ∧ BuiltBy before c f ∧
      ∀ v, f.defaultValue = some v →
        (empty.run before).heap.accepts f.dataType v = true ∧
        ((∀ r ∈ f.dataType.references, ∀ t, (empty.run before).heap.Leads r t →
            (empty.run commands).heap.fields t = (empty.run before).heap.fields t) →
          (empty.run commands).heap.accepts f.dataType v = true) := by
  obtain ⟨before, c, hprefix, hbuilt⟩ := exists_builtBy commands f (.standing hf)
  refine ⟨before, c, hprefix, hbuilt, fun v hv => ?_⟩
  have hthen := hbuilt.accepts_default hv
  refine ⟨hthen, fun hsame => ?_⟩
  rw [Heap.accepts_eq_of_fields_eq hsame v]
  exact hthen

def origin : Value :=
  .map [("x", .int 0)]

/-- A point, and a place that is at the origin by default. -/
def placed : List Command :=
  [.createWith "point" [.built ⟨"x", .basic .int, none, .empty, true⟩] none .empty,
    .createWith "place" [.built ⟨"at", .record "point", some origin, .empty, true⟩] none .empty]

/-- The field of the place, under some name. -/
def placeField (name : String) : Field Handle :=
  ⟨name, .record ⟨0⟩, some origin, .empty, true⟩

theorem default_of_renamed :
    placeField "where" ∈
      (empty.run (placed ++ [.rename "place" "at" "where"])).heap.fields ⟨1⟩ ∧
    ∃ before c, before ++ [c] <+: placed ++ [.rename "place" "at" "where"] ∧
      BuiltBy before c (placeField "where") ∧
      (empty.run before).heap.accepts (.record ⟨0⟩) origin = true := by
  have hfields : (empty.run (placed ++ [.rename "place" "at" "where"])).heap.fields ⟨1⟩ =
      [placeField "where"] := by cbv
  have hf : placeField "where" ∈
      (empty.run (placed ++ [.rename "place" "at" "where"])).heap.fields ⟨1⟩ := by
    rw [hfields]
    exact List.mem_singleton_self _
  obtain ⟨before, c, hprefix, hbuilt, hdefault⟩ := default_accepted_when_built _ _ _ hf
  exact ⟨hf, before, c, hprefix, hbuilt, (hdefault origin rfl).1⟩

/-- If the point loses its field, then the place keeps a default value that its type refuses. -/
theorem default_refused_later :
    ¬ ∀ (commands : List Command) (s : Handle), ∀ f ∈ (empty.run commands).heap.fields s,
      ∀ v, f.defaultValue = some v →
        (empty.run commands).heap.accepts f.dataType v = true := by
  intro hall
  have hfields : (empty.run (placed ++ [.install "point" []])).heap.fields ⟨1⟩ =
      [placeField "at"] := by cbv
  have hrefused : (empty.run (placed ++ [.install "point" []])).heap.accepts (.record ⟨0⟩)
      origin = false := by cbv
  have hf : placeField "at" ∈
      (empty.run (placed ++ [.install "point" []])).heap.fields ⟨1⟩ := by
    rw [hfields]
    exact List.mem_singleton_self _
  have haccepted := hall _ _ _ hf origin rfl
  rw [placeField, hrefused] at haccepted
  cases haccepted

end SchemaGraph.Workspace
