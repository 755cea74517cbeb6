import Mathlib
import SchemaGraph.Proofs.FieldEdits
import SchemaGraph.Proofs.Reinstall
import SchemaGraph.Proofs.Validity

/-!
# Extending a schema

A list of fields that takes the place of the fields of a schema extends the schema if all of these
are in it, in whatever order and with others between them. Since no name or alias occurs twice in
the list, a key that led to a field leads to the same field as before. What was derived about values
by following such keys can be derived again, however often the schema is met on the way, so every
type accepts what it did.

Adding schemas has the same effect, and most commands do not touch a field at all. In a workspace
that only grows, no default value ever ceases to be one of its type. Without the condition this is
not so: it is enough that a schema loses one field.

* `Heap.ExtendsTo`: keys lead where they did.
* `Heap.Valid.extend`, `Heap.ExtendsTo.accepts`: derivations stay derivations.
* `Heap.extendsTo_setTable`, `Heap.extendsTo_add`: the changes that extend a heap.
* `Workspace.Grows`: runs of commands that take no field away.
* `Workspace.Extends.extendsTo_step`, `Workspace.Grows.extendsTo`: one command, and runs.
* `Workspace.Grows.acceptsDefault`: default values.
* `Workspace.accepted_after_extension`: all of this.
-/

namespace SchemaGraph

/-- The only field that answers to a text is the one that is found. -/
theorem FieldTable.byName_of_mem {ρ : Type} {t : FieldTable ρ} {f : Field ρ} {text : String}
    (hnodup : (identifiers t.fields).Nodup) (hf : f ∈ t.fields) (ha : f.answersTo text = true) :
    t.byName text = some f := by
  obtain ⟨i, hi⟩ := List.getElem?_of_mem hf
  have hposition : t.position? text = some i := (position?_eq_some_iff hnodup).mpr ⟨f, hi, ha⟩
  exact Option.bind_eq_some_iff.mpr ⟨i, hposition, hi⟩

namespace Heap

variable {h k : Heap} {s : Handle} {t : DataType Handle} {v : Value} {f : Field Handle}

/-! ## Where keys lead -/

/-- A key that leads to a field in the one heap leads to the same field in the other. -/
def ExtendsTo (h k : Heap) : Prop :=
  ∀ s key f, h.field? s key = some f → k.field? s key = some f

theorem ExtendsTo.refl (h : Heap) : h.ExtendsTo h :=
  fun _ _ _ hf => hf

theorem ExtendsTo.trans {l : Heap} (hk : h.ExtendsTo k) (hl : k.ExtendsTo l) : h.ExtendsTo l :=
  fun s key f hf => hl s key f (hk s key f hf)

theorem Valid.extend (hv : h.Valid t v) (hk : h.ExtendsTo k) : k.Valid t v := by
  induction hv with
  | basic valid => exact .basic valid
  | array _ ih => exact .array ih
  | bytes content => exact .bytes content
  | map _ ih => exact .map ih
  | choice mem _ ih => exact .choice mem ih
  | @record s entries resolves _ ih =>
    have hresolves : ∀ entry ∈ entries, ∃ f, h.field? s entry.1 = some f ∧
        k.field? s entry.1 = some f := by
      intro entry mem
      obtain ⟨f, hf⟩ := resolves entry mem
      exact ⟨f, hf, hk s entry.1 f hf⟩
    refine .record ?_ ?_
    · intro entry mem
      obtain ⟨f, -, hf⟩ := hresolves entry mem
      exact ⟨f, hf⟩
    · intro entry mem g hg
      -- The key led to some field before, and so it leads to that one.
      obtain ⟨f, hold, hnew⟩ := hresolves entry mem
      obtain rfl : f = g := Option.some.inj (hnew.symm.trans hg)
      exact ih entry mem f hold

theorem ExtendsTo.accepts (hk : h.ExtendsTo k) (ha : h.accepts t v = true) :
    k.accepts t v = true :=
  accepts_of_valid ((valid_of_accepts ha).extend hk)

/-! ## Changes that extend a heap -/

theorem extendsTo_of_table_eq (hsame : ∀ r, k.table r = h.table r) : h.ExtendsTo k := by
  intro r key f hf
  rw [field?, hsame]
  exact hf

theorem extendsTo_setTable {table : FieldTable Handle}
    (hnodup : (FieldTable.identifiers table.fields).Nodup)
    (hkeeps : ∀ f ∈ h.fields s, f ∈ table.fields) : h.ExtendsTo (h.setTable s table) := by
  intro r key f hf
  rcases h.table_setTable_cases s table r with hsame | ⟨rfl, hnew⟩
  · rw [field?, hsame]
    exact hf
  · obtain ⟨hmem, hanswers⟩ := answersTo_of_field? hf
    rw [field?, hnew]
    exact FieldTable.byName_of_mem hnodup (hkeeps f hmem) hanswers

theorem mem_fields_setTable_of_mem {table : FieldTable Handle}
    (hkeeps : ∀ f ∈ h.fields s, f ∈ table.fields) {r : Handle} (hf : f ∈ h.fields r) :
    f ∈ (h.setTable s table).fields r := by
  rcases h.table_setTable_cases s table r with hsame | ⟨rfl, hnew⟩
  · rw [fields, hsame]
    exact hf
  · rw [fields, hnew]
    exact hkeeps f hf

/-- A schema that is not there yet has no fields, so no key leads to one. -/
theorem extendsTo_add (h : Heap) (i : Instance) : h.ExtendsTo (h.add i).2 := by
  intro r key f hf
  have hmem : f ∈ h.fields r := (answersTo_of_field? hf).1
  have hother : r.index ≠ h.instances.size := by
    intro hnew
    have houtside : r ∉ h.handles := by
      rw [mem_handles, hnew]
      exact Nat.lt_irrefl _
    rw [fields_eq_nil houtside] at hmem
    cases hmem
  rw [field?, table_add, if_neg hother]
  exact hf

/-! ## Default values -/

/-- The default value of a field, if it has one, is one of its type. -/
def AcceptsDefault (h : Heap) (f : Field Handle) : Prop :=
  ∀ v, f.defaultValue = some v → h.accepts f.dataType v = true

theorem AcceptsDefault.extend (hf : h.AcceptsDefault f) (hk : h.ExtendsTo k) :
    k.AcceptsDefault f :=
  fun v hv => hk.accepts (hf v hv)

end Heap

namespace Workspace

variable {w next : Workspace} {c : Command}

/-! ## Commands that take no field away -/

/-- No field is taken away or renamed: the fields that the command installs on a schema, if it does
so, contain those of the schema. -/
def Extends (w : Workspace) : Command → Prop
  | .remove .. | .rename .. => False
  | .install schema specs => ∀ s fields, w.schemas[schema]? = some s →
      specs.mapM w.field = .ok fields → ∀ f ∈ w.heap.fields s, f ∈ fields
  | _ => True

theorem Extends.extendsTo_of_execute {reply : Reply} (hc : w.Extends c)
    (h : w.execute c = .ok (reply, next)) : w.heap.ExtendsTo next.heap := by
  cases c with
  | create target identifier =>
    obtain rfl := congrArg Prod.snd (Except.ok.inj h)
    exact w.heap.extendsTo_add _
  | createWith target specs source identifier =>
    obtain ⟨fields, i, -, -, -, rfl⟩ := exists_of_execute_createWith h
    exact w.heap.extendsTo_add i
  | install schema specs =>
    obtain ⟨s, fields, table, hs, hfields, htable, -, rfl⟩ := exists_of_execute_install h
    obtain ⟨hnodup, rfl⟩ := FieldTable.build_eq_ok_iff.mp htable
    exact Heap.extendsTo_setTable hnodup (hc s fields hs hfields)
  | remove | rename => cases hc
  | _ => exact Heap.extendsTo_of_table_eq (table_of_keepsTables h rfl)

theorem Extends.extendsTo_step (hc : w.Extends c) : w.heap.ExtendsTo (w.step c).2.heap := by
  unfold step
  split
  next reply next h => exact hc.extendsTo_of_execute h
  next => exact .refl _

/-- Building a field looks at its default value, renaming does not touch it. -/
theorem Extends.acceptsDefault_step (hc : w.Extends c)
    (hw : ∀ f, w.Uses f → w.heap.AcceptsDefault f) :
    ∀ f, (w.step c).2.Uses f → (w.step c).2.heap.AcceptsDefault f := by
  refine (advances_step w c).forall_uses ?_ ?_ ?_
  · intro f hf
    exact (hw f hf).extend hc.extendsTo_step
  · intro draft f _ hbuilt
    obtain ⟨-, -, -, -, hdefault⟩ := field_built_eq_ok_iff.mp hbuilt
    have haccepts : w.heap.AcceptsDefault f := hdefault
    exact haccepts.extend hc.extendsTo_step
  · intro f g newName hg hf
    obtain ⟨-, rfl⟩ := Field.renamed_eq_ok_iff.mp hg
    exact hf

/-! ## Workspaces that grow -/

/-- The workspaces that commands lead to that take no field away. -/
inductive Grows (w : Workspace) : Workspace → Prop
  | refl : Grows w w
  | step {next : Workspace} {c : Command} (grows : Grows w next) (extending : next.Extends c) :
      Grows w (next.step c).2

theorem Grows.extendsTo (hw : w.Grows next) : w.heap.ExtendsTo next.heap := by
  induction hw with
  | refl => exact .refl _
  | step _ extending ih => exact ih.trans extending.extendsTo_step

theorem Grows.acceptsDefault (hw : w.Grows next)
    (hstart : ∀ f, w.Uses f → w.heap.AcceptsDefault f) :
    ∀ f, next.Uses f → next.heap.AcceptsDefault f := by
  induction hw with
  | refl => exact hstart
  | step _ extending ih => exact extending.acceptsDefault_step ih

theorem step_install {schema : String} {specs : List FieldSpec} {s : Handle}
    {fields : List (Field Handle)} {heap : Heap} (hs : w.schemas[schema]? = some s)
    (hfields : specs.mapM w.field = .ok fields) (hinstall : w.heap.install s fields = .ok heap) :
    w.step (.install schema specs) = (.ok .done, w.withHeap heap) := by
  apply step_of_execute
  refine bind_eq_ok_iff.mpr ⟨s, schema_eq_ok_iff.mpr hs, ?_⟩
  refine bind_eq_ok_iff.mpr ⟨fields, hfields, ?_⟩
  exact bind_eq_ok_iff.mpr ⟨heap, orRefuse_eq_ok_iff.mpr hinstall, rfl⟩

/-- **Extending a schema invalidates nothing.** Fields without repetitions among which are those of
a schema can be installed on it. Afterwards every type accepts all values that it did, every schema
has the fields that it had, and a default value that was one of its type is one still. So it is in
the course of any run that takes no field away. -/
theorem accepted_after_extension :
    (∀ (w : Workspace) (s : Handle) (fields : List (Field Handle)),
      (∀ f ∈ w.heap.fields s, f ∈ fields) → (FieldTable.identifiers fields).Nodup →
      ∃ heap, w.heap.install s fields = .ok heap ∧
        (∀ schema specs, w.schemas[schema]? = some s → specs.mapM w.field = .ok fields →
          w.step (.install schema specs) = (.ok .done, w.withHeap heap)) ∧
        (∀ t v, w.heap.accepts t v = true → heap.accepts t v = true) ∧
        (∀ r, ∀ f ∈ w.heap.fields r, f ∈ heap.fields r) ∧
        ∀ f, w.Uses f → w.heap.AcceptsDefault f → heap.AcceptsDefault f) ∧
    ∀ w next : Workspace, w.Grows next →
      (∀ t v, w.heap.accepts t v = true → next.heap.accepts t v = true) ∧
      ((∀ f, w.Uses f → w.heap.AcceptsDefault f) →
        ∀ f, next.Uses f → next.heap.AcceptsDefault f) := by
  refine ⟨?_, fun w next hw => ⟨fun t v => hw.extendsTo.accepts, hw.acceptsDefault⟩⟩
  intro w s fields hkeeps hnodup
  have hinstall : w.heap.install s fields = .ok (w.heap.setTable s (.indexed fields)) :=
    Heap.install_eq_ok_iff.mpr ⟨hnodup, rfl⟩
  have hextends : w.heap.ExtendsTo (w.heap.setTable s (.indexed fields)) :=
    Heap.extendsTo_setTable hnodup hkeeps
  refine ⟨_, hinstall, ?_, fun t v => hextends.accepts, ?_, fun f _ hf => hf.extend hextends⟩
  · intro schema specs hs hfields
    exact step_install hs hfields hinstall
  · intro r f hf
    exact Heap.mem_fields_setTable_of_mem hkeeps hf

/-- The name of a tree, which may be called otherwise. -/
def label : FieldSpec :=
  .built ⟨"name", .basic .string, none, .ofList ["n"], false⟩

def children : FieldSpec :=
  .built ⟨"children", .array (.record "tree"), none, .empty, true⟩

def sapling : Value :=
  .map [("n", .string "oak"), ("children", .array [.map [("name", .string "twig")]])]

/-- A schema of trees that refers to itself, and one whose default value is a tree. -/
def planted : List Command :=
  [.create "tree" .empty, .install "tree" [label, children],
    .createWith "garden" [.built ⟨"first", .record "tree", some sapling, .empty, true⟩] none .empty]

/-- A further field between those of a tree, which come in another order. -/
def measured : Command :=
  .install "tree" [children, .built ⟨"height", .basic .int, none, .ofList ["h"], true⟩, label]

/-- The fields of a tree after that. -/
def measuredFields : List (Field Handle) :=
  [⟨"children", .array (.record ⟨0⟩), none, .empty, true⟩,
    ⟨"height", .basic .int, none, .ofList ["h"], true⟩,
    ⟨"name", .basic .string, none, .ofList ["n"], false⟩]

theorem accepted_measured :
    ∃ heap, (empty.run planted).heap.install ⟨0⟩ measuredFields = .ok heap ∧
      (empty.run planted).step measured = (.ok .done, (empty.run planted).withHeap heap) ∧
      heap.accepts (.map (.record ⟨0⟩)) (.map [("park", sapling)]) = true ∧
      ∀ f, (empty.run (planted ++ [measured])).Uses f →
        (empty.run (planted ++ [measured])).heap.AcceptsDefault f := by
  obtain ⟨extension, growth⟩ := accepted_after_extension
  have hbare : (empty.run (planted.take 1)).Extends (.install "tree" [label, children]) := by
    have hschema : (empty.run (planted.take 1)).schemas["tree"]? = some ⟨0⟩ := by cbv
    have hfields : (empty.run (planted.take 1)).heap.fields ⟨0⟩ = [] := by cbv
    intro s fields hs _ f hf
    obtain rfl : ⟨0⟩ = s := Option.some.inj (hschema.symm.trans hs)
    rw [hfields] at hf
    cases hf
  have hschema : (empty.run planted).schemas["tree"]? = some ⟨0⟩ := by cbv
  have hspecs : [children, .built ⟨"height", .basic .int, none, .ofList ["h"], true⟩, label].mapM
      (empty.run planted).field = .ok measuredFields := by cbv
  have hkeeps : ∀ f ∈ (empty.run planted).heap.fields ⟨0⟩, f ∈ measuredFields := by
    have hfields : (empty.run planted).heap.fields ⟨0⟩ =
        [⟨"name", .basic .string, none, .ofList ["n"], false⟩,
          ⟨"children", .array (.record ⟨0⟩), none, .empty, true⟩] := by cbv
    rw [hfields]
    simp [measuredFields]
  have hmore : (empty.run planted).Extends measured := by
    intro s fields hs hfields
    obtain rfl : ⟨0⟩ = s := Option.some.inj (hschema.symm.trans hs)
    obtain rfl : measuredFields = fields := Except.ok.inj (hspecs.symm.trans hfields)
    exact hkeeps
  have hgrows : empty.Grows (empty.run (planted ++ [measured])) :=
    .step (.step (.step (.step .refl trivial) hbare) trivial) hmore
  obtain ⟨heap, hinstall, hstep, haccepts, -, -⟩ :=
    extension (empty.run planted) ⟨0⟩ measuredFields hkeeps (by decide)
  refine ⟨heap, hinstall, hstep "tree" _ hschema hspecs, haccepts _ _ (by cbv), ?_⟩
  exact (growth _ _ hgrows).2 fun f hf => absurd hf not_uses_empty

end Workspace

end SchemaGraph
