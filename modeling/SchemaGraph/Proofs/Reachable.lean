import Mathlib
import SchemaGraph.Proofs.Transition

/-!
# Workspaces that can be reached

Starting without schemas, every field table that is ever in use is well formed: those of the
schemas and those that were kept as snapshots. The fields at hand have names, so the lists that are
looked at before they are installed need only be looked at for repetitions; and a table that a
field was taken out of is not looked at again because it came from a well-formed one.

* `Workspace.WellFormed`: the invariant.
* `Workspace.WellFormed.advance`: every step keeps it.
* `Workspace.Reachable.wellFormed`: so every run does.
* `Workspace.Reachable.lookUp_eq_scan`: what this says about look-up, in the table of every schema
  and in every snapshot.
-/

namespace SchemaGraph.Workspace

/-- Every table is well formed, and every kept field has a name. -/
structure WellFormed (w : Workspace) : Prop where
  table : ∀ s : Handle, (w.heap.table s).WellFormed
  field : ∀ (name : String) (f : Field Handle), w.fields[name]? = some f → f.name ≠ ""
  snapshot : ∀ (name : String) (t : FieldTable Handle),
    w.snapshots[name]? = some t → t.WellFormed

variable {w next : Workspace} {c : Command}

theorem wellFormed_empty : empty.WellFormed where
  table _ := FieldTable.wellFormed_empty
  field name f h := by
    have : (∅ : Std.TreeMap String (Field Handle))[name]? = some f := h
    simp at this
  snapshot name t h := by
    have : (∅ : Std.TreeMap String (FieldTable Handle))[name]? = some t := h
    simp at this

theorem WellFormed.name_ne_empty_of_uses {f : Field Handle} (hw : w.WellFormed)
    (hf : w.Uses f) : f.name ≠ "" := by
  cases hf with
  | standing mem => exact (hw.table _).name_ne_empty _ mem
  | saved found mem => exact (hw.snapshot _ _ found).name_ne_empty _ mem
  | kept found => exact hw.field _ _ found

theorem WellFormed.name_ne_empty {f : Field Handle} (hw : w.WellFormed) (hf : w.Offers c f) :
    f.name ≠ "" := by
  induction hf with
  | used uses => exact hw.name_ne_empty_of_uses uses
  | built mem built =>
    obtain ⟨-, -, -, hname, -⟩ := field_built_eq_ok_iff.mp built
    exact hname
  | renamed offered hrenamed ih =>
    obtain ⟨hname, rfl⟩ := Field.renamed_eq_ok_iff.mp hrenamed
    exact hname

theorem WellFormed.table_setTable {s : Handle} {table : FieldTable Handle} (hw : w.WellFormed)
    (htable : table.WellFormed) (other : Handle) :
    ((w.heap.setTable s table).table other).WellFormed := by
  rcases w.heap.table_setTable_eq_or s table other with heq | heq
  · rw [heq]
    exact htable
  · rw [heq]
    exact hw.table other

theorem WellFormed.table_of_evolves {heap : Heap} (hw : w.WellFormed) (h : w.Evolves c heap)
    (s : Handle) : (heap.table s).WellFormed := by
  cases h with
  | unchanged => exact hw.table s
  | named _ keeps =>
    rw [Heap.table_update keeps]
    exact hw.table s
  | added offered built =>
    rw [Heap.table_add]
    split
    · exact FieldTable.wellFormed_of_build (fun f hf => hw.name_ne_empty (offered f hf)) built
    · exact hw.table s
  | installed _ offered built =>
    apply hw.table_setTable
    exact FieldTable.wellFormed_of_build (fun f hf => hw.name_ne_empty (offered f hf)) built
  | removed other removed => exact hw.table_setTable ((hw.table other).remove removed) s
  | renamed other renamed => exact hw.table_setTable ((hw.table other).rename renamed) s

theorem WellFormed.advance (hw : w.WellFormed) (h : w.Advances c next) : next.WellFormed where
  table := hw.table_of_evolves h.heap
  field name f hf := hw.name_ne_empty (h.fields name f hf)
  snapshot name t ht := by
    rcases h.snapshots name t ht with ht | ⟨s, rfl⟩
    · exact hw.snapshot name t ht
    · exact hw.table s

/-- Some commands, executed or refused one after another, lead to the workspace. -/
def Reachable (w : Workspace) : Prop :=
  ∃ commands, empty.run commands = w

theorem Reachable.step (hw : w.Reachable) (c : Command) : (w.step c).2.Reachable := by
  obtain ⟨commands, rfl⟩ := hw
  exact ⟨commands ++ [c], run_concat empty commands c⟩

theorem Reachable.of_step {reply : Except Refusal Reply} (hw : w.Reachable)
    (h : w.step c = (reply, next)) : next.Reachable := by
  have hstep := hw.step c
  rw [h] at hstep
  exact hstep

theorem Reachable.wellFormed (hw : w.Reachable) : w.WellFormed := by
  obtain ⟨commands, rfl⟩ := hw
  exact run_induction WellFormed.advance wellFormed_empty commands

/-! ## Look-up -/

/-- The field tables of a workspace: those of the schemas, and the snapshots. -/
inductive Holds (w : Workspace) : FieldTable Handle → Prop
  | current (s : Handle) : Holds w (w.heap.table s)
  | kept {name : String} {t : FieldTable Handle} (found : w.snapshots[name]? = some t) : Holds w t

theorem WellFormed.of_holds {t : FieldTable Handle} (hw : w.WellFormed) (ht : w.Holds t) :
    t.WellFormed := by
  cases ht with
  | current s => exact hw.table s
  | kept found => exact hw.snapshot _ t found

/-- **Look-up is a scan.** In every table that is in use the names are not empty and no name or
alias occurs twice. Looking a text up is a scan of the fields for the one that answers to it, and
the indices give positions of fields only. -/
theorem Reachable.lookUp_eq_scan (hw : w.Reachable) :
    (∀ t, w.Holds t →
      (∀ f ∈ t.fields, f.name ≠ "") ∧
      (FieldTable.identifiers t.fields).Nodup ∧
      (∀ text,
        t.position? text = t.fields.findIdx? (fun f => f.answersTo text) ∧
        t.byName text = t.fields.find? (fun f => f.answersTo text)) ∧
      (∀ (text : String) (i : Nat), t.nameIndex[text]? = some i →
        ∃ f : Field Handle, t.fields[i]? = some f ∧ f.name = text) ∧
      (∀ (text : String) (i : Nat), t.aliasIndex[text]? = some i →
        ∃ f : Field Handle, t.fields[i]? = some f ∧ text ∈ f.aliases)) ∧
    ∀ s text,
      w.heap.field? s text = (w.heap.fields s).find? (fun f => f.answersTo text) ∧
      w.heap.dataType? s text =
        ((w.heap.fields s).find? (fun f => f.answersTo text)).map Field.dataType := by
  have hwell := hw.wellFormed
  refine ⟨fun t ht => ?_, fun s text => ?_⟩
  · obtain ⟨hnames, hnodup⟩ := hwell.of_holds ht
    refine ⟨hnames, hnodup, fun text => ?_, ?_, ?_⟩
    · exact ⟨FieldTable.position?_eq_findIdx? hnodup text, FieldTable.byName_eq_find? hnodup text⟩
    · intro text i hi
      exact FieldTable.getElem?_of_nameIndex hi
    · intro text i hi
      exact FieldTable.getElem?_of_aliasIndex hi
  · have hfind := FieldTable.byName_eq_find? (hwell.table s).nodup_identifiers text
    exact ⟨hfind, congrArg (Option.map Field.dataType) hfind⟩

/-- The name of one field takes the place of the alias of another, which was taken out. -/
def edited : Workspace :=
  empty.run
    [.createWith "s"
        [.built ⟨"id", .basic .int, none, .ofList ["key"], false⟩,
          .built ⟨"note", .basic .string, none, .empty, true⟩] none .empty,
      .snapshot "s" "before", .remove "s" "id" none, .rename "s" "note" "key"]

theorem lookUp_edited :
    edited.Reachable ∧
    ∃ t, edited.snapshots["before"]? = some t ∧
      FieldTable.identifiers t.fields = ["id", "key", "note"] ∧
      t.byName "key" = t.fields.find? (fun f => f.answersTo "key") ∧
      edited.heap.field? ⟨0⟩ "key" =
        (edited.heap.fields ⟨0⟩).find? (fun f => f.answersTo "key") := by
  have reachable : edited.Reachable := ⟨_, rfl⟩
  have found : edited.snapshots["before"]? =
      some (.indexed [⟨"id", .basic .int, none, .ofList ["key"], false⟩,
        ⟨"note", .basic .string, none, .empty, true⟩]) := by cbv
  obtain ⟨htables, hschemas⟩ := reachable.lookUp_eq_scan
  obtain ⟨-, -, hscan, -, -⟩ := htables _ (.kept found)
  exact ⟨reachable, _, found, by cbv, (hscan "key").2, (hschemas ⟨0⟩ "key").1⟩

end SchemaGraph.Workspace
