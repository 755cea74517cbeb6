import SchemaGraph.Proofs.LookUp
import SchemaGraph.Workspace

/-!
# What a command can do

The commands of a workspace change little, and in few ways. A command leaves the heap as it is, or
makes one instance, or changes one; the field lists that it installs hold fields that were at hand;
and what it keeps under a name was at hand as well. Every invariant of workspaces follows from this
description, so that nothing else needs to look at the commands one by one.

* `Workspace.Uses`: the fields that are somewhere in a workspace.
* `Workspace.Offers`: the fields that are at hand for a command.
* `Workspace.Evolves`: the heaps that a command can lead to.
* `Workspace.Advances`: the workspaces that a command can lead to.
* `Workspace.advances_of_execute`: no command does anything else.
* `Workspace.table_of_keepsTables`: what most commands leave alone.
* `Workspace.Advances.forall_uses`: what building and renaming give, all fields have.
* `Workspace.run_induction`: what every step keeps, every run keeps.
-/

namespace SchemaGraph

/-- The fields that a command is given, in order. -/
def Command.specs : Command → List FieldSpec
  | .createWith _ specs _ _ => specs
  | .install _ specs => specs
  | .keepBuilt spec _ => [spec]
  | .keepRenamed spec _ _ => [spec]
  | _ => []

/-- Whether a command neither makes a schema nor changes the fields of one. -/
def Command.keepsTables : Command → Bool
  | .create .. | .createWith .. | .install .. | .remove .. | .rename .. => false
  | _ => true

namespace Workspace

/-- Some name stands for the schema. -/
def Names (w : Workspace) (s : Handle) : Prop :=
  ∃ name : String, w.schemas[name]? = some s

/-- A field of a schema or of a snapshot, or one that was kept. -/
inductive Uses (w : Workspace) : Field Handle → Prop
  | standing {s : Handle} {f : Field Handle} (mem : f ∈ w.heap.fields s) : Uses w f
  | saved {name : String} {t : FieldTable Handle} {f : Field Handle}
      (found : w.snapshots[name]? = some t) (mem : f ∈ t.fields) : Uses w f
  | kept {name : String} {f : Field Handle} (found : w.fields[name]? = some f) : Uses w f

/-- A field that a command can get hold of. -/
inductive Offers (w : Workspace) (c : Command) : Field Handle → Prop
  | used {f : Field Handle} (uses : w.Uses f) : Offers w c f
  /-- A field that the command builds. -/
  | built {draft : Field String} {f : Field Handle} (mem : .built draft ∈ c.specs)
      (built : w.field (.built draft) = .ok f) : Offers w c f
  /-- One of these under a new name. -/
  | renamed {f g : Field Handle} {newName : String} (offered : Offers w c f)
      (renamed : f.renamed newName = .ok g) : Offers w c g

/-- A heap that a command can lead to. -/
inductive Evolves (w : Workspace) (c : Command) : Heap → Prop
  | unchanged : Evolves w c w.heap
  /-- An instance is called something else. -/
  | named (s : Handle) {change : Instance → Instance} (keeps : ∀ i, (change i).table = i.table) :
      Evolves w c (w.heap.update s change)
  /-- There is one more instance. -/
  | added {i : Instance} {fields : List (Field Handle)} (offered : ∀ f ∈ fields, w.Offers c f)
      (built : FieldTable.build fields = .ok i.table) : Evolves w c (w.heap.add i).2
  /-- A whole field list is replaced. -/
  | installed (s : Handle) {fields : List (Field Handle)} {table : FieldTable Handle}
      (offered : ∀ f ∈ fields, w.Offers c f) (built : FieldTable.build fields = .ok table) :
      Evolves w c (w.heap.setTable s table)
  | removed (s : Handle) {name : String} {f : Field Handle} {table : FieldTable Handle}
      (removed : (w.heap.table s).remove? name = some (f, table)) :
      Evolves w c (w.heap.setTable s table)
  | renamed (s : Handle) {name newName : String} {table : FieldTable Handle}
      (renamed : (w.heap.table s).rename name newName = .ok (some table)) :
      Evolves w c (w.heap.setTable s table)

/-- A workspace that a command can lead to. -/
structure Advances (w : Workspace) (c : Command) (next : Workspace) : Prop where
  heap : w.Evolves c next.heap
  schemas : ∀ (name : String) (s : Handle), next.schemas[name]? = some s →
    w.Names s ∨ s ∈ next.heap.handles
  fields : ∀ (name : String) (f : Field Handle), next.fields[name]? = some f → w.Offers c f
  snapshots : ∀ (name : String) (t : FieldTable Handle), next.snapshots[name]? = some t →
    w.snapshots[name]? = some t ∨ ∃ s, t = w.heap.table s

variable {w next : Workspace} {c : Command}

/-! ## The parts of a command -/

theorem Offers.standing {s : Handle} {f : Field Handle} (hf : f ∈ w.heap.fields s) :
    w.Offers c f :=
  .used (.standing hf)

theorem Offers.kept {name : String} {f : Field Handle} (hf : w.fields[name]? = some f) :
    w.Offers c f :=
  .used (.kept hf)

/-- A field is built if its type mentions known schemas, it has a name, and its default value is one
of its type. -/
theorem field_built_eq_ok_iff {draft : Field String} {f : Field Handle} :
    w.field (.built draft) = .ok f ↔ ∃ dataType, w.resolveType draft.dataType = .ok dataType ∧
      f = { draft with dataType } ∧ f.name ≠ "" ∧
        ∀ v, f.defaultValue = some v → w.heap.accepts f.dataType v = true := by
  constructor
  · intro h
    obtain ⟨dataType, htype, h⟩ := bind_eq_ok_iff.mp h
    obtain ⟨rfl, hname, hdefault⟩ := Field.checked_eq_ok_iff.mp (orRefuse_eq_ok_iff.mp h)
    exact ⟨dataType, htype, rfl, hname, hdefault⟩
  · rintro ⟨dataType, htype, rfl, hname, hdefault⟩
    refine bind_eq_ok_iff.mpr ⟨dataType, htype, orRefuse_eq_ok_iff.mpr ?_⟩
    exact Field.checked_eq_ok_iff.mpr ⟨rfl, hname, hdefault⟩

theorem Offers.of_field {spec : FieldSpec} {f : Field Handle} (hspec : spec ∈ c.specs)
    (h : w.field spec = .ok f) : w.Offers c f := by
  cases spec with
  | kept name =>
    simp only [field] at h
    split at h
    next g hg =>
      obtain rfl : g = f := Except.ok.inj h
      exact .kept hg
    next => cases h
  | built draft => exact .built hspec h

theorem offers_of_mapM {specs : List FieldSpec} {fields : List (Field Handle)}
    (hspecs : ∀ spec ∈ specs, spec ∈ c.specs) (h : specs.mapM w.field = .ok fields) :
    ∀ f ∈ fields, w.Offers c f := by
  induction specs generalizing fields with
  | nil =>
    obtain rfl : [] = fields := Except.ok.inj h
    simp
  | cons spec specs ih =>
    rw [List.mapM_cons] at h
    obtain ⟨f, hf, h⟩ := bind_eq_ok_iff.mp h
    obtain ⟨fs, hfs, h⟩ := bind_eq_ok_iff.mp h
    obtain rfl : f :: fs = fields := Except.ok.inj h
    intro g hg
    rcases List.mem_cons.mp hg with rfl | hg
    · exact .of_field (hspecs spec List.mem_cons_self) hf
    · exact ih (fun spec hspec => hspecs spec (List.mem_cons_of_mem _ hspec)) hfs g hg

theorem Advances.refl (w : Workspace) (c : Command) : w.Advances c w where
  heap := .unchanged
  schemas name _ hs := .inl ⟨name, hs⟩
  fields _ _ hf := .kept hf
  snapshots _ _ := .inl

theorem Advances.withHeap {heap : Heap} (h : w.Evolves c heap) :
    w.Advances c (w.withHeap heap) where
  heap := h
  schemas name _ hs := .inl ⟨name, hs⟩
  fields _ _ hf := .kept hf
  snapshots _ _ := .inl

theorem Advances.nameSchema {s : Handle} (h : w.Advances c next)
    (hs : w.Names s ∨ s ∈ next.heap.handles) (target : String) :
    w.Advances c (next.nameSchema target s) := by
  refine ⟨h.heap, ?_, h.fields, h.snapshots⟩
  intro name t ht
  have ht : (next.schemas.insert target s)[name]? = some t := ht
  rw [Std.TreeMap.getElem?_insert] at ht
  split at ht
  · obtain rfl : s = t := Option.some.inj ht
    exact hs
  · exact h.schemas name t ht

theorem Advances.forget (w : Workspace) (c : Command) (schema : String) :
    w.Advances c { w with schemas := w.schemas.erase schema } := by
  refine ⟨.unchanged, ?_, fun _ _ hf => .kept hf, fun _ _ => .inl⟩
  intro name s hs
  rw [Std.TreeMap.getElem?_erase] at hs
  split at hs
  · cases hs
  · exact .inl ⟨name, hs⟩

theorem Advances.keepField {f : Field Handle} (h : w.Advances c next) (hf : w.Offers c f)
    (target : Option String) : w.Advances c (next.keepField target f) := by
  cases target with
  | none => exact h
  | some target =>
    refine ⟨h.heap, h.schemas, ?_, h.snapshots⟩
    intro name g hg
    have hg : (next.fields.insert target f)[name]? = some g := hg
    rw [Std.TreeMap.getElem?_insert] at hg
    split at hg
    · obtain rfl : f = g := Option.some.inj hg
      exact hf
    · exact h.fields name g hg

theorem Advances.keepFound {found : Option (Field Handle)} {target : Option String} {reply : Reply}
    (hfound : ∀ f, found = some f → w.Offers c f)
    (h : w.keepFound target found = (reply, next)) : w.Advances c next := by
  cases found with
  | none =>
    obtain rfl : w = next := (Prod.mk.inj h).2
    exact .refl w c
  | some f =>
    obtain rfl : w.keepField target f = next := (Prod.mk.inj h).2
    exact (Advances.refl w c).keepField (hfound f rfl) target

theorem Advances.snapshot (w : Workspace) (c : Command) (target : String) (s : Handle) :
    w.Advances c { w with snapshots := w.snapshots.insert target (w.heap.table s) } := by
  refine ⟨.unchanged, fun name _ hs => .inl ⟨name, hs⟩, fun _ _ hf => .kept hf, ?_⟩
  intro name t ht
  rw [Std.TreeMap.getElem?_insert] at ht
  split at ht
  · exact .inr ⟨s, (Option.some.inj ht).symm⟩
  · exact .inl ht

/-! ## Commands -/

theorem schema_eq_ok_iff {name : String} {s : Handle} :
    w.schema name = .ok s ↔ w.schemas[name]? = some s := by
  unfold schema
  cases w.schemas[name]? with
  | none => simp
  | some t => simp

theorem exists_of_execute_install {schema : String} {specs : List FieldSpec} {reply : Reply}
    (h : w.execute (.install schema specs) = .ok (reply, next)) :
    ∃ s fields table, w.schemas[schema]? = some s ∧ specs.mapM w.field = .ok fields ∧
      FieldTable.build fields = .ok table ∧ reply = .done ∧
      next = w.withHeap (w.heap.setTable s table) := by
  obtain ⟨s, hs, h⟩ := bind_eq_ok_iff.mp h
  obtain ⟨fields, hfields, h⟩ := bind_eq_ok_iff.mp h
  obtain ⟨heap, hheap, h⟩ := bind_eq_ok_iff.mp h
  obtain ⟨table, htable, hheap⟩ := bind_eq_ok_iff.mp (orRefuse_eq_ok_iff.mp hheap)
  obtain rfl : w.heap.setTable s table = heap := Except.ok.inj hheap
  obtain ⟨rfl, rfl⟩ := Prod.mk.inj (Except.ok.inj h)
  exact ⟨s, fields, table, schema_eq_ok_iff.mp hs, hfields, htable, rfl, rfl⟩

theorem exists_of_execute_createWith {target : String} {specs : List FieldSpec}
    {source : Option SourceText} {identifier : Identifier} {reply : Reply}
    (h : w.execute (.createWith target specs source identifier) = .ok (reply, next)) :
    ∃ fields i, specs.mapM w.field = .ok fields ∧ FieldTable.build fields = .ok i.table ∧
      reply = .done ∧ next = (w.withHeap (w.heap.add i).2).nameSchema target (w.heap.add i).1 := by
  obtain ⟨fields, hfields, h⟩ := bind_eq_ok_iff.mp h
  obtain ⟨⟨s, heap⟩, hheap, h⟩ := bind_eq_ok_iff.mp h
  obtain ⟨rfl, rfl⟩ := Prod.mk.inj (Except.ok.inj h)
  obtain ⟨table, htable, hadd⟩ := bind_eq_ok_iff.mp (orRefuse_eq_ok_iff.mp hheap)
  obtain ⟨rfl, rfl⟩ := Prod.mk.inj (Except.ok.inj hadd)
  exact ⟨fields, ⟨identifier, table, none, none, source⟩, hfields, htable, rfl, rfl⟩

theorem execute_remove_cases {schema name : String} {target : Option String} {reply : Reply}
    (h : w.execute (.remove schema name target) = .ok (reply, next)) :
    (reply = .field none ∧ next = w) ∨
    ∃ s f table, w.schemas[schema]? = some s ∧ (w.heap.table s).remove? name = some (f, table) ∧
      reply = .field (some f) ∧
      next = (w.withHeap (w.heap.setTable s table)).keepField target f := by
  obtain ⟨s, hs, h⟩ := bind_eq_ok_iff.mp h
  split at h
  next =>
    obtain ⟨rfl, rfl⟩ := Prod.mk.inj (Except.ok.inj h)
    exact .inl ⟨rfl, rfl⟩
  next f heap hfound =>
    obtain ⟨⟨f', table⟩, hremove, hheap⟩ := Option.bind_eq_some_iff.mp hfound
    obtain ⟨rfl, rfl⟩ := Prod.mk.inj (Option.some.inj hheap)
    obtain ⟨rfl, rfl⟩ := Prod.mk.inj (Except.ok.inj h)
    exact .inr ⟨s, f', table, schema_eq_ok_iff.mp hs, hremove, rfl, rfl⟩

theorem execute_rename_cases {schema name newName : String} {reply : Reply}
    (h : w.execute (.rename schema name newName) = .ok (reply, next)) :
    (reply = .answer false ∧ next = w) ∨
    ∃ s table, w.schemas[schema]? = some s ∧
      (w.heap.table s).rename name newName = .ok (some table) ∧ reply = .answer true ∧
      next = w.withHeap (w.heap.setTable s table) := by
  obtain ⟨s, hs, h⟩ := bind_eq_ok_iff.mp h
  obtain ⟨heap, hheap, h⟩ := bind_eq_ok_iff.mp h
  obtain ⟨edited, hrename, hheap⟩ := bind_eq_ok_iff.mp (orRefuse_eq_ok_iff.mp hheap)
  obtain rfl : edited.map (w.heap.setTable s) = heap := Except.ok.inj hheap
  cases edited with
  | none =>
    obtain ⟨rfl, rfl⟩ := Prod.mk.inj (Except.ok.inj h)
    exact .inl ⟨rfl, rfl⟩
  | some table =>
    obtain ⟨rfl, rfl⟩ := Prod.mk.inj (Except.ok.inj h)
    exact .inr ⟨s, table, schema_eq_ok_iff.mp hs, hrename, rfl, rfl⟩

theorem offers_of_field? {s : Handle} {text : String} {f : Field Handle}
    (h : w.heap.field? s text = some f) : w.Offers c f := by
  obtain ⟨i, -, hf⟩ := Option.bind_eq_some_iff.mp h
  exact .standing (List.mem_of_getElem? hf)

/-- Every command that is not refused is described by `Advances`. -/
theorem advances_of_execute {reply : Reply} (h : w.execute c = .ok (reply, next)) :
    w.Advances c next := by
  cases c with
  | create target identifier =>
    obtain rfl := congrArg Prod.snd (Except.ok.inj h)
    have hnone : ∀ f ∈ ([] : List (Field Handle)), w.Offers (.create target identifier) f := by
      simp
    exact (Advances.withHeap (.added hnone rfl)).nameSchema (.inr Heap.mem_handles_add) target
  | createWith target specs source identifier =>
    obtain ⟨fields, i, hfields, htable, -, rfl⟩ := exists_of_execute_createWith h
    have hoffers := offers_of_mapM (c := .createWith target specs source identifier)
      (fun _ hspec => hspec) hfields
    exact (Advances.withHeap (.added hoffers htable)).nameSchema (.inr Heap.mem_handles_add) target
  | share schema target =>
    obtain ⟨s, hs, h⟩ := bind_eq_ok_iff.mp h
    obtain rfl := congrArg Prod.snd (Except.ok.inj h)
    exact (Advances.refl w _).nameSchema (.inl ⟨schema, schema_eq_ok_iff.mp hs⟩) target
  | forget schema =>
    obtain rfl := congrArg Prod.snd (Except.ok.inj h)
    exact .forget w _ schema
  | install schema specs =>
    obtain ⟨s, fields, table, -, hfields, htable, -, rfl⟩ := exists_of_execute_install h
    have hoffers := offers_of_mapM (c := .install schema specs) (fun _ hspec => hspec) hfields
    exact .withHeap (.installed s hoffers htable)
  | remove schema name target =>
    rcases execute_remove_cases h with ⟨-, rfl⟩ | ⟨s, f, table, -, hremove, -, rfl⟩
    · exact .refl _ _
    · obtain ⟨i, -, hf, -⟩ := FieldTable.remove?_eq_some_iff.mp hremove
      have hoffers : w.Offers (.remove schema name target) f :=
        .standing (List.mem_of_getElem? hf)
      exact (Advances.withHeap (.removed s hremove)).keepField hoffers target
  | rename schema name newName =>
    rcases execute_rename_cases h with ⟨-, rfl⟩ | ⟨s, table, -, hrename, -, rfl⟩
    · exact .refl _ _
    · exact .withHeap (.renamed s hrename)
  | setName schema name =>
    obtain ⟨s, -, h⟩ := bind_eq_ok_iff.mp h
    obtain rfl := congrArg Prod.snd (Except.ok.inj h)
    exact .withHeap (.named s fun _ => rfl)
  | setNamespace schema nameSpace =>
    obtain ⟨s, -, h⟩ := bind_eq_ok_iff.mp h
    obtain rfl := congrArg Prod.snd (Except.ok.inj h)
    exact .withHeap (.named s fun _ => rfl)
  | snapshot schema target =>
    obtain ⟨s, -, h⟩ := bind_eq_ok_iff.mp h
    obtain rfl := congrArg Prod.snd (Except.ok.inj h)
    exact .snapshot w _ target s
  | keepNamed schema text target =>
    obtain ⟨s, -, h⟩ := bind_eq_ok_iff.mp h
    exact .keepFound (fun _ hf => offers_of_field? hf) (Except.ok.inj h)
  | keepAt schema position target =>
    obtain ⟨s, -, h⟩ := bind_eq_ok_iff.mp h
    refine .keepFound (fun f hf => ?_) (Except.ok.inj h)
    exact .standing (List.mem_of_getElem? hf)
  | keepBuilt spec target =>
    obtain ⟨f, hf, h⟩ := bind_eq_ok_iff.mp h
    refine .keepFound (fun g hg => ?_) (Except.ok.inj h)
    obtain rfl : f = g := Option.some.inj hg
    exact .of_field List.mem_cons_self hf
  | keepRenamed spec newName target =>
    obtain ⟨f, hf, h⟩ := bind_eq_ok_iff.mp h
    obtain ⟨g, hg, h⟩ := bind_eq_ok_iff.mp h
    refine .keepFound (fun g' hg' => ?_) (Except.ok.inj h)
    obtain rfl : g = g' := Option.some.inj hg'
    have hoffers : w.Offers (.keepRenamed spec newName target) f := .of_field List.mem_cons_self hf
    exact hoffers.renamed (orRefuse_eq_ok_iff.mp hg)

theorem execute_of_step {reply : Reply} (h : w.step c = (.ok reply, next)) :
    w.execute c = .ok (reply, next) := by
  unfold step at h
  split at h
  next hexecute =>
    obtain ⟨hreply, rfl⟩ := Prod.mk.inj h
    obtain rfl := Except.ok.inj hreply
    exact hexecute
  next => cases (Prod.mk.inj h).1

theorem eq_of_step_error {refusal : Refusal} (h : w.step c = (.error refusal, next)) :
    next = w := by
  unfold step at h
  split at h
  next => cases (Prod.mk.inj h).1
  next => exact (Prod.mk.inj h).2.symm

/-- A refused command changes nothing, and every other one is described by `Advances`. -/
theorem advances_step (w : Workspace) (c : Command) : w.Advances c (w.step c).2 := by
  unfold step
  split
  next reply next h => exact advances_of_execute h
  next => exact .refl w c

/-! ## Commands that keep all tables -/

theorem heap_keepField (w : Workspace) (target : Option String) (f : Field Handle) :
    (w.keepField target f).heap = w.heap := by
  cases target <;> rfl

theorem heap_keepFound (w : Workspace) (target : Option String) (found : Option (Field Handle)) :
    (w.keepFound target found).2.heap = w.heap := by
  cases found with
  | none => rfl
  | some f => exact w.heap_keepField target f

theorem table_of_keepsTables {reply : Reply} (h : w.execute c = .ok (reply, next))
    (hc : c.keepsTables = true) (r : Handle) : next.heap.table r = w.heap.table r := by
  cases c with
  | create | createWith | install | remove | rename => cases hc
  | forget schema =>
    obtain rfl := congrArg Prod.snd (Except.ok.inj h)
    rfl
  | share | snapshot =>
    obtain ⟨s, -, h⟩ := bind_eq_ok_iff.mp h
    obtain rfl := congrArg Prod.snd (Except.ok.inj h)
    rfl
  | setName schema name =>
    obtain ⟨s, -, h⟩ := bind_eq_ok_iff.mp h
    obtain rfl := congrArg Prod.snd (Except.ok.inj h)
    have keeps : ∀ i : Instance, { i with name }.table = i.table := fun _ => rfl
    exact Heap.table_update keeps r
  | setNamespace schema nameSpace =>
    obtain ⟨s, -, h⟩ := bind_eq_ok_iff.mp h
    obtain rfl := congrArg Prod.snd (Except.ok.inj h)
    have keeps : ∀ i : Instance, { i with nameSpace }.table = i.table := fun _ => rfl
    exact Heap.table_update keeps r
  | keepNamed | keepAt | keepBuilt =>
    obtain ⟨found, -, h⟩ := bind_eq_ok_iff.mp h
    obtain rfl := congrArg Prod.snd (Except.ok.inj h)
    rw [heap_keepFound]
  | keepRenamed spec newName target =>
    obtain ⟨f, -, h⟩ := bind_eq_ok_iff.mp h
    obtain ⟨g, -, h⟩ := bind_eq_ok_iff.mp h
    obtain rfl := congrArg Prod.snd (Except.ok.inj h)
    rw [heap_keepFound]

/-! ## The fields behind a command -/

theorem mem_fields_setTable {h : Heap} {s other : Handle} {table : FieldTable Handle}
    {f : Field Handle} (hf : f ∈ (h.setTable s table).fields other) :
    f ∈ table.fields ∨ f ∈ h.fields other := by
  unfold Heap.fields at hf ⊢
  rcases h.table_setTable_eq_or s table other with htable | htable
  · rw [htable] at hf
    exact .inl hf
  · rw [htable] at hf
    exact .inr hf

theorem offers_of_evolves {heap : Heap} {s : Handle} {f : Field Handle} (h : w.Evolves c heap)
    (hf : f ∈ heap.fields s) : w.Offers c f := by
  cases h with
  | unchanged => exact .standing hf
  | named _ keeps =>
    rw [Heap.fields, Heap.table_update keeps] at hf
    exact .standing hf
  | added offered built =>
    obtain ⟨-, htable⟩ := FieldTable.build_eq_ok_iff.mp built
    rw [Heap.fields, Heap.table_add] at hf
    split at hf
    · rw [htable] at hf
      exact offered f hf
    · exact .standing hf
  | installed _ offered built =>
    obtain ⟨-, rfl⟩ := FieldTable.build_eq_ok_iff.mp built
    rcases mem_fields_setTable hf with hf | hf
    · exact offered f hf
    · exact .standing hf
  | removed _ removed =>
    obtain ⟨i, -, -, rfl⟩ := FieldTable.remove?_eq_some_iff.mp removed
    rcases mem_fields_setTable hf with hf | hf
    · exact .standing (List.mem_of_mem_eraseIdx hf)
    · exact .standing hf
  | renamed _ renamed =>
    obtain ⟨i, g, -, hg, hname, hbuild⟩ := FieldTable.rename_eq_ok_some_iff.mp renamed
    obtain ⟨-, rfl⟩ := FieldTable.build_eq_ok_iff.mp hbuild
    rcases mem_fields_setTable hf with hf | hf
    · rcases List.mem_or_eq_of_mem_set hf with hf | rfl
      · exact .standing hf
      · have offered : w.Offers c g := .standing (List.mem_of_getElem? hg)
        exact offered.renamed (Field.renamed_eq_ok_iff.mpr ⟨hname, rfl⟩)
    · exact .standing hf

/-- Every field that is in use after a command was at hand for it. -/
theorem Advances.offers {f : Field Handle} (h : w.Advances c next) (hf : next.Uses f) :
    w.Offers c f := by
  cases hf with
  | standing mem => exact offers_of_evolves h.heap mem
  | saved found mem =>
    rcases h.snapshots _ _ found with found | ⟨s, rfl⟩
    · exact .used (.saved found mem)
    · exact .standing mem
  | kept found => exact h.fields _ _ found

theorem Advances.forall_uses {P : Field Handle → Prop} (h : w.Advances c next)
    (hw : ∀ f, w.Uses f → P f)
    (hbuilt : ∀ draft f, .built draft ∈ c.specs → w.field (.built draft) = .ok f → P f)
    (hrenamed : ∀ f g newName, f.renamed newName = .ok g → P f → P g) :
    ∀ f, next.Uses f → P f := by
  intro f hf
  have hoffers := h.offers hf
  clear hf
  induction hoffers with
  | used uses => exact hw _ uses
  | built mem built => exact hbuilt _ _ mem built
  | renamed offered hg ih => exact hrenamed _ _ _ hg ih

/-! ## Runs -/

theorem not_uses_empty {f : Field Handle} : ¬ empty.Uses f := by
  intro hf
  cases hf with
  | @standing s _ mem =>
    have mem : f ∈ ([] : List (Field Handle)) := mem
    cases mem
  | @saved name t _ found mem =>
    have found : (∅ : Std.TreeMap String (FieldTable Handle))[name]? = some t := found
    simp at found
  | @kept name _ found =>
    have found : (∅ : Std.TreeMap String (Field Handle))[name]? = some f := found
    simp at found

theorem run_concat (w : Workspace) (commands : List Command) (c : Command) :
    w.run (commands ++ [c]) = ((w.run commands).step c).2 :=
  List.foldl_concat ..

/-- What holds at first and is kept by every advance holds after every run. -/
theorem run_induction {P : Workspace → Prop}
    (keeps : ∀ {w next : Workspace} {c : Command}, P w → w.Advances c next → P next) (h : P w)
    (commands : List Command) : P (w.run commands) := by
  unfold run
  induction commands generalizing w with
  | nil => exact h
  | cons c commands ih => exact ih (keeps h (advances_step w c))

end Workspace

end SchemaGraph
