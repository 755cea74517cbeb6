import Mathlib
import SchemaGraph.Proofs.Horizon

/-!
# Where cycles come from

A field is built before it is put into a schema, and its type mentions only schemas that there are
by then. So a new schema refers to older ones, and nothing refers to it yet: it is on no cycle. From
then on its fields are renamed and taken out, which brings no reference about. Only a field list
that is installed on a schema that exists already can mention the schema itself, or one that leads
to it.

A field that was taken out of a schema may be kept and put into another one later. The schemas that
it mentions exist still, since instances are never taken away, and they are older than the schema
that it is put into.

* `Command.installs`: the commands that install a field list.
* `Heap.RefersBack`: what a heap may refer to after any other command.
* `Heap.RefersBack.transGen`: no cycle is new.
* `Heap.Ordered`, `Heap.RefersBack.ordered`: references lead to older schemas.
* `Heap.references_renameField`, `Heap.references_removeField?`: what edits of one field do to the
  references of all schemas.
* `Workspace.Reachable.refersBack_step`, `Workspace.ordered_run`: one command, and runs.
* `recursive_only_by_install`: what this says about recursive schemas.
-/

namespace SchemaGraph

/-- Whether a command puts a list of fields in the place of the fields of a schema. -/
def Command.installs : Command → Bool
  | .install _ _ => true
  | _ => false

namespace Heap

variable {h k : Heap} {s t : Handle}

/-! ## References and cycles -/

/-- With fewer references there are fewer cycles. -/
theorem isRecursive_mono (hsub : ∀ r, k.references r ⊆ h.references r)
    (hk : k.isRecursive s = true) : h.isRecursive s = true := by
  rw [isRecursive_iff_transGen] at hk ⊢
  refine Relation.TransGen.mono ?_ _ _ hk
  intro a b hab
  exact mem_references_iff.mp (hsub a (mem_references_iff.mpr hab))

theorem isRecursive_eq_of_references (hsame : ∀ r, k.references r = h.references r) (s : Handle) :
    k.isRecursive s = h.isRecursive s := by
  have hrefers : k.RefersTo = h.RefersTo := by
    funext a b
    rw [eq_iff_iff, ← mem_references_iff, hsame, mem_references_iff]
  rw [Bool.eq_iff_iff, isRecursive_iff_transGen, isRecursive_iff_transGen, hrefers]

/-- Every reference of the one heap is one of the other, or leads from a schema that is new back to
one that is not. -/
def RefersBack (h k : Heap) : Prop :=
  ∀ s t, k.RefersTo s t → h.RefersTo s t ∨ s ∉ h.handles ∧ t ∈ h.handles

theorem RefersBack.of_subset (hsub : ∀ r, k.references r ⊆ h.references r) : RefersBack h k := by
  intro s t hst
  exact .inl (mem_references_iff.mp (hsub s (mem_references_iff.mpr hst)))

theorem RefersBack.of_fields_eq (hsame : ∀ r, k.fields r = h.fields r) : RefersBack h k := by
  intro s t hst
  rw [RefersTo, hsame] at hst
  exact .inl hst

theorem refersBack_add {i : Instance}
    (hold : ∀ f ∈ i.table.fields, ∀ t ∈ f.dataType.references, t ∈ h.handles) :
    RefersBack h (h.add i).2 := by
  rintro s t ⟨f, hf, hoccurs⟩
  rw [fields, table_add] at hf
  split at hf
  next hnew =>
    refine .inr ⟨?_, hold f hf t (DataType.mem_references_iff.mpr hoccurs)⟩
    rw [mem_handles, hnew]
    exact Nat.lt_irrefl _
  next => exact .inl ⟨f, hf, hoccurs⟩

/-- A cycle comes back to where it starts, so every schema on it is referred to. A new schema is
not, so the cycle was there before. -/
theorem RefersBack.transGen (hback : RefersBack h k)
    (hinside : ∀ s t, h.RefersTo s t → t ∈ h.handles)
    (hcycle : Relation.TransGen k.RefersTo s s) : Relation.TransGen h.RefersTo s s := by
  have htarget : ∀ a b, k.RefersTo a b → b ∈ h.handles := by
    intro a b hab
    rcases hback a b hab with hab | ⟨-, hb⟩
    · exact hinside a b hab
    · exact hb
  have hedge : ∀ a b, a ∈ h.handles → k.RefersTo a b → h.RefersTo a b := by
    intro a b ha hab
    exact (hback a b hab).resolve_right fun hnew => hnew.1 ha
  have hpath : ∀ a b, a ∈ h.handles → Relation.TransGen k.RefersTo a b →
      Relation.TransGen h.RefersTo a b ∧ b ∈ h.handles := by
    intro a b ha hab
    induction hab with
    | single hab => exact ⟨.single (hedge a _ ha hab), htarget a _ hab⟩
    | tail _ hbc ih => exact ⟨ih.1.tail (hedge _ _ ih.2 hbc), htarget _ _ hbc⟩
  obtain ⟨r, -, hrs⟩ := Relation.TransGen.tail'_iff.mp hcycle
  exact (hpath s s (htarget r s hrs) hcycle).1

/-! ## References in the order of creation -/

/-- Every reference leads to a schema that was made before. -/
def Ordered (h : Heap) : Prop :=
  ∀ s t, h.RefersTo s t → t.index < s.index

theorem ordered_empty : empty.Ordered := by
  rintro s t ⟨f, hf, -⟩
  have hf : f ∈ ([] : List (Field Handle)) := hf
  cases hf

theorem RefersBack.ordered (hback : RefersBack h k) (hordered : h.Ordered) : k.Ordered := by
  intro s t hst
  rcases hback s t hst with hst | ⟨hs, ht⟩
  · exact hordered s t hst
  · rw [mem_handles] at hs ht
    omega

theorem Ordered.isRecursive_eq_false (hordered : h.Ordered) (s : Handle) :
    h.isRecursive s = false := by
  have hdown : ∀ t, Relation.TransGen h.RefersTo s t → t.index < s.index := by
    intro t hpath
    induction hpath with
    | single hst => exact hordered s _ hst
    | tail _ htu ih => exact Nat.lt_trans (hordered _ _ htu) ih
  rw [← Bool.not_eq_true, isRecursive_iff_transGen]
  intro hcycle
  exact Nat.lt_irrefl _ (hdown s hcycle)

/-! ## Edits of one field -/

theorem references_setTable {table : FieldTable Handle} (R : List Handle → List Handle → Prop)
    (hrefl : ∀ l, R l l)
    (htable : R (table.fields.flatMap fun f => f.dataType.references) (h.references s))
    (r : Handle) : R ((h.setTable s table).references r) (h.references r) := by
  rcases h.table_setTable_cases s table r with hsame | ⟨rfl, hnew⟩
  · rw [references, fields, hsame]
    exact hrefl _
  · rw [references, fields, hnew]
    exact htable

/-- A new name changes no type. -/
theorem references_set_name {fields : List (Field Handle)} {i : Nat} {f : Field Handle}
    (hf : fields[i]? = some f) (name : String) :
    (fields.set i { f with name }).flatMap (fun g => g.dataType.references) =
      fields.flatMap fun g => g.dataType.references := by
  obtain ⟨hi, rfl⟩ := List.getElem?_eq_some_iff.mp hf
  rw [List.flatMap_def, List.flatMap_def, List.map_set]
  congr 1
  apply List.ext_getElem?
  intro j
  rw [List.getElem?_set, List.length_map, List.getElem?_map]
  split
  next hij =>
    subst hij
    rw [hf, Option.map_some]
  next => rfl

theorem references_renamed {name newName : String} {table : FieldTable Handle}
    (hrename : (h.table s).rename name newName = .ok (some table)) (r : Handle) :
    (h.setTable s table).references r = h.references r := by
  obtain ⟨i, f, -, hf, -, hbuild⟩ := FieldTable.rename_eq_ok_some_iff.mp hrename
  obtain ⟨-, rfl⟩ := FieldTable.build_eq_ok_iff.mp hbuild
  exact references_setTable Eq (fun _ => rfl) (references_set_name hf newName) r

theorem references_removed {name : String} {f : Field Handle} {table : FieldTable Handle}
    (hremove : (h.table s).remove? name = some (f, table)) (r : Handle) :
    (h.setTable s table).references r ⊆ h.references r := by
  obtain ⟨i, -, -, rfl⟩ := FieldTable.remove?_eq_some_iff.mp hremove
  refine references_setTable (· ⊆ ·) List.Subset.refl ?_ r
  exact ((List.eraseIdx_sublist (h.fields s) i).flatMap _).subset

theorem references_renameField {name newName : String}
    (hrename : h.renameField s name newName = .ok (some k)) (r : Handle) :
    k.references r = h.references r := by
  obtain ⟨edited, hedited, hk⟩ := bind_eq_ok_iff.mp hrename
  obtain ⟨table, rfl, rfl⟩ := Option.map_eq_some_iff.mp (Except.ok.inj hk)
  exact references_renamed hedited r

theorem references_removeField? {name : String} {f : Field Handle}
    (hremove : h.removeField? s name = some (f, k)) (r : Handle) :
    k.references r ⊆ h.references r := by
  obtain ⟨⟨g, table⟩, hedited, hk⟩ := Option.bind_eq_some_iff.mp hremove
  obtain ⟨rfl, rfl⟩ := Prod.mk.inj (Option.some.inj hk)
  exact references_removed hedited r

end Heap

/-! ## Commands -/

namespace Workspace

variable {w next : Workspace} {c : Command}

/-- A field that is at hand mentions only schemas that there are. -/
theorem Reachable.mem_handles_of_offers (hw : w.Reachable) {f : Field Handle}
    (hf : w.Offers c f) : ∀ t ∈ f.dataType.references, t ∈ w.heap.handles := by
  induction hf with
  | used uses => exact fun t ht => hw.mem_handles (.inType uses ht)
  | built mem built => exact fun t ht => hw.mem_handles (.named (names_of_built built ht))
  | renamed offered renamed ih =>
    obtain ⟨-, rfl⟩ := Field.renamed_eq_ok_iff.mp renamed
    exact ih

theorem refersBack_of_heap_eq (h : next.heap = w.heap) : w.heap.RefersBack next.heap := by
  rw [h]
  exact .of_fields_eq fun _ => rfl

theorem Reachable.refersBack_of_execute (hw : w.Reachable) {reply : Reply}
    (h : w.execute c = .ok (reply, next)) (hc : c.installs = false) :
    w.heap.RefersBack next.heap := by
  cases c with
  | create target identifier =>
    obtain rfl := congrArg Prod.snd (Except.ok.inj h)
    exact Heap.refersBack_add fun f hf => absurd hf List.not_mem_nil
  | createWith target specs source identifier =>
    obtain ⟨fields, i, hfields, htable, -, rfl⟩ := exists_of_execute_createWith h
    obtain ⟨-, htable⟩ := FieldTable.build_eq_ok_iff.mp htable
    have hoffers := offers_of_mapM (c := .createWith target specs source identifier)
      (fun _ hspec => hspec) hfields
    refine Heap.refersBack_add fun f hf => hw.mem_handles_of_offers (hoffers f ?_)
    rwa [htable] at hf
  | install schema specs => cases hc
  | remove schema name target =>
    rcases execute_remove_cases h with ⟨-, rfl⟩ | ⟨s, f, table, -, hremove, -, rfl⟩
    · exact refersBack_of_heap_eq rfl
    · rw [heap_keepField]
      exact .of_subset (Heap.references_removed hremove)
  | rename schema name newName =>
    rcases execute_rename_cases h with ⟨-, rfl⟩ | ⟨s, table, -, hrename, -, rfl⟩
    · exact refersBack_of_heap_eq rfl
    · refine .of_subset fun r => ?_
      rw [← Heap.references_renamed hrename r]
      exact List.Subset.refl _
  | _ => exact .of_fields_eq fun r => congrArg FieldTable.fields (table_of_keepsTables h rfl r)

theorem Reachable.refersBack_step (hw : w.Reachable) (hc : c.installs = false) :
    w.heap.RefersBack (w.step c).2.heap := by
  unfold Workspace.step
  split
  next reply next h => exact hw.refersBack_of_execute h hc
  next => exact refersBack_of_heap_eq rfl

theorem Reachable.isRecursive_of_step (hw : w.Reachable) (hc : c.installs = false) {s : Handle}
    (h : (w.step c).2.heap.isRecursive s = true) : w.heap.isRecursive s = true := by
  rw [Heap.isRecursive_iff_transGen] at h ⊢
  exact (hw.refersBack_step hc).transGen (fun _ _ => hw.refersTo_mem_handles) h

/-- Without an install, references lead to older schemas after every run. -/
theorem ordered_run {commands : List Command} (hall : ∀ c ∈ commands, c.installs = false) :
    (empty.run commands).heap.Ordered := by
  induction commands using List.reverseRecOn with
  | nil => exact Heap.ordered_empty
  | append_singleton commands c ih =>
    have hbefore : (empty.run commands).heap.Ordered :=
      ih fun c' hc' => hall c' (List.mem_append_left _ hc')
    have hreachable : (empty.run commands).Reachable := ⟨commands, rfl⟩
    have hc : c.installs = false := hall c (List.mem_append_right _ List.mem_cons_self)
    rw [run_concat]
    exact (hreachable.refersBack_step hc).ordered hbefore

theorem isRecursive_step_rename (w : Workspace) (schema name newName : String) (s : Handle) :
    (w.step (.rename schema name newName)).2.heap.isRecursive s = w.heap.isRecursive s := by
  unfold step
  split
  next reply next h =>
    rcases execute_rename_cases h with ⟨-, rfl⟩ | ⟨t, table, -, hrename, -, rfl⟩
    · rfl
    · exact Heap.isRecursive_eq_of_references (Heap.references_renamed hrename) s
  next => rfl

end Workspace

/-- **Cycles come from installed field lists only.** In a workspace that can be reached, no other
command makes a schema recursive. In a run without such a command every reference leads to an older
schema, and no schema is recursive at any time. When a field of some schema gets a new name, the
same schemas are recursive as before, and when it is taken out, no others are. -/
theorem recursive_only_by_install :
    (∀ w : Workspace, w.Reachable → ∀ c : Command, c.installs = false → ∀ s,
      (w.step c).2.heap.isRecursive s = true → w.heap.isRecursive s = true) ∧
    (∀ commands : List Command, (∀ c ∈ commands, c.installs = false) →
      ∀ before, before <+: commands →
        (∀ s t, (Workspace.empty.run before).heap.RefersTo s t → t.index < s.index) ∧
        ∀ s, (Workspace.empty.run before).heap.isRecursive s = false) ∧
    (∀ (w : Workspace) (schema name newName : String) (s : Handle),
      (w.step (.rename schema name newName)).2.heap.isRecursive s = w.heap.isRecursive s) ∧
    ∀ (h k : Heap) (t : Handle) (name : String),
      (∀ newName, h.renameField t name newName = .ok (some k) →
        ∀ s, k.isRecursive s = h.isRecursive s) ∧
      ∀ f, h.removeField? t name = some (f, k) →
        ∀ s, k.isRecursive s = true → h.isRecursive s = true := by
  refine ⟨?_, ?_, Workspace.isRecursive_step_rename, ?_⟩
  · intro w hw c hc s h
    exact hw.isRecursive_of_step hc h
  · intro commands hall before hbefore
    have hordered : (Workspace.empty.run before).heap.Ordered :=
      Workspace.ordered_run fun c hc => hall c (hbefore.subset hc)
    exact ⟨hordered, hordered.isRecursive_eq_false⟩
  · intro h k t name
    constructor
    · intro newName hrename s
      exact Heap.isRecursive_eq_of_references (Heap.references_renameField hrename) s
    · intro f hremove s hs
      exact Heap.isRecursive_mono (Heap.references_removeField? hremove) hs

/-- A field is taken out of a node, kept, and put into the root, which also refers to the node. -/
def handedUp : List Command :=
  [.create "leaf" .empty,
    .createWith "node"
      [.built ⟨"left", .map (.record "leaf"), none, .empty, true⟩,
        .built ⟨"right", .record "leaf", none, .empty, true⟩] none .empty,
    .remove "node" "left" (some "kept"),
    .createWith "root"
      [.kept "kept", .built ⟨"below", .choice [.basic .int, .record "node"], none, .empty, true⟩]
      none .empty,
    .rename "root" "below" "right", .forget "node"]

/-- A schema that leads to a ring, but not back to itself. -/
def entry : Command :=
  .createWith "entry" [.built ⟨"ring", .array (.record "a"), none, .empty, true⟩] none .empty

/-- A tree, and a ring that gets an entrance, then another name for a link, and then loses it. -/
theorem recursive_entry :
    (Workspace.empty.run handedUp).heap.references ⟨2⟩ = [⟨0⟩, ⟨1⟩] ∧
    (Workspace.empty.run handedUp).heap.isRecursive ⟨2⟩ = false ∧
    ring.Reachable ∧
    (ring.step entry).2.heap.references ⟨4⟩ = [⟨3⟩] ∧
    (ring.step entry).2.heap.isRecursive ⟨4⟩ = false ∧
    (ring.step (.rename "a" "next" "link")).2.heap.isRecursive ⟨0⟩ = true ∧
    (∃ k, ring.heap.renameField ⟨3⟩ "next" "link" = .ok (some k) ∧ k.isRecursive ⟨0⟩ = true) ∧
    ∃ f k, (ring.step entry).2.heap.removeField? ⟨3⟩ "next" = some (f, k) ∧
      k.isRecursive ⟨4⟩ = false := by
  obtain ⟨step, run, stepRename, edit⟩ := recursive_only_by_install
  have hring : ring.heap.isRecursive ⟨0⟩ = true := by cbv
  have hnone : ring.heap.isRecursive ⟨4⟩ = false := by cbv
  have hentry : (ring.step entry).2.heap.isRecursive ⟨4⟩ = false := by
    rw [← Bool.not_eq_true]
    intro hrecursive
    have hbefore := step ring ⟨_, rfl⟩ entry rfl ⟨4⟩ hrecursive
    rw [hnone] at hbefore
    cases hbefore
  refine ⟨by cbv, (run handedUp (by decide) _ (List.prefix_refl _)).2 ⟨2⟩, ⟨_, rfl⟩, by cbv, hentry,
    ?_, ?_, ?_⟩
  · rw [stepRename]
    exact hring
  · have hrename : ring.heap.renameField ⟨3⟩ "next" "link" = .ok (some (ring.heap.setTable ⟨3⟩
        (.indexed [⟨"link", .map (.record ⟨2⟩), none, .empty, true⟩]))) := by cbv
    refine ⟨_, hrename, ?_⟩
    rw [(edit _ _ _ _).1 _ hrename]
    exact hring
  · have hremove : (ring.step entry).2.heap.removeField? ⟨3⟩ "next" =
        some (⟨"next", .map (.record ⟨2⟩), none, .empty, true⟩,
          (ring.step entry).2.heap.setTable ⟨3⟩ .empty) := by cbv
    refine ⟨_, _, hremove, ?_⟩
    rw [← Bool.not_eq_true]
    intro hrecursive
    have hbefore := (edit _ _ _ _).2 _ hremove ⟨4⟩ hrecursive
    rw [hentry] at hbefore
    cases hbefore

end SchemaGraph
