import SchemaGraph.FieldTable
import SchemaGraph.Identifier

/-!
# Schemas in a heap

Schemas are shared and can be changed in place: a type refers to the schema of a nested record by
a handle, and an instance may be reached again from its own fields. The heap holds the instances,
and a handle is the place of one in it.

* `Heap.create`, `Heap.createWith`: add an instance.
* `Heap.install`, `Heap.removeField?`, `Heap.renameField`: change the fields of one instance. A
  list of fields is looked at as a whole before it takes the place of the old one.
* `Heap.setName`, `Heap.setNamespace`: change how an instance is called.

A handle that no instance stands behind counts as one of a schema without fields, and changing it
changes nothing.
-/

namespace SchemaGraph

/-- The place of a schema instance in a heap. -/
structure Handle where
  index : Nat
deriving DecidableEq

/-- The text that a schema was read from, and its format. -/
structure SourceText where
  text : String
  format : String
deriving DecidableEq

/-- One schema: its fields, and what it is called. -/
structure Instance where
  identifier : Identifier
  table : FieldTable Handle
  name : Option String
  nameSpace : Option String
  source : Option SourceText

structure Heap where
  instances : Array Instance

namespace Heap

def empty : Heap := ⟨#[]⟩

def instance? (h : Heap) (s : Handle) : Option Instance :=
  h.instances[s.index]?

def table (h : Heap) (s : Handle) : FieldTable Handle :=
  ((h.instance? s).map Instance.table).getD .empty

def fields (h : Heap) (s : Handle) : List (Field Handle) :=
  (h.table s).fields

/-- The field that has a text as its name or alias. -/
def field? (h : Heap) (s : Handle) (text : String) : Option (Field Handle) :=
  (h.table s).byName text

/-- The type of the field that has a text as its name or alias. -/
def dataType? (h : Heap) (s : Handle) (text : String) : Option (DataType Handle) :=
  (h.field? s text).map Field.dataType

def fieldAt? (h : Heap) (s : Handle) (position : Nat) : Option (Field Handle) :=
  (h.fields s)[position]?

/-- The schemas that the field types of a schema refer to. -/
def references (h : Heap) (s : Handle) : List Handle :=
  (h.fields s).flatMap fun f => f.dataType.references

def handles (h : Heap) : List Handle :=
  (List.range h.instances.size).map Handle.mk

theorem mem_handles {h : Heap} {s : Handle} : s ∈ h.handles ↔ s.index < h.instances.size := by
  cases s
  simp [handles]

theorem mem_handles_iff_exists {h : Heap} {s : Handle} :
    s ∈ h.handles ↔ ∃ i, h.instance? s = some i := by
  rw [mem_handles]
  constructor
  · intro hs
    exact ⟨_, Array.getElem?_eq_getElem hs⟩
  · rintro ⟨i, hi⟩
    exact (Array.getElem?_eq_some_iff.mp hi).1

/-- Without an instance there are no fields. -/
theorem fields_eq_nil {h : Heap} {s : Handle} (hs : s ∉ h.handles) : h.fields s = [] := by
  have : h.instances.size ≤ s.index := by simpa [mem_handles] using hs
  simp [fields, table, instance?, this, FieldTable.empty]

/-! ## Naming -/

def identifier (h : Heap) (s : Handle) : Identifier :=
  ((h.instance? s).map Instance.identifier).getD .empty

/-- The name given to a schema, or else the name of its identifier. -/
def schemaName (h : Heap) (s : Handle) : Option String :=
  ((h.instance? s).bind Instance.name) <|> (h.identifier s).name

def schemaNamespace (h : Heap) (s : Handle) : Option String :=
  (h.instance? s).bind Instance.nameSpace

/-- The name behind its namespace, if there is one. -/
def fullName (h : Heap) (s : Handle) : Option String :=
  (h.schemaName s).map fun name =>
    match h.schemaNamespace s with
    | none => name
    | some space => space ++ "." ++ name

def source (h : Heap) (s : Handle) : Option SourceText :=
  (h.instance? s).bind Instance.source

/-! ## New instances -/

/-- Add an instance behind all others. -/
def add (h : Heap) (i : Instance) : Handle × Heap :=
  (⟨h.instances.size⟩, ⟨h.instances.push i⟩)

theorem table_add (h : Heap) (i : Instance) (other : Handle) :
    (h.add i).2.table other =
      if other.index = h.instances.size then i.table else h.table other := by
  unfold table instance? add
  rw [Array.getElem?_push]
  split <;> rfl

/-- A new instance has a place of its own. -/
theorem mem_handles_add {h : Heap} {i : Instance} : (h.add i).1 ∈ (h.add i).2.handles := by
  rw [mem_handles]
  simp [add]

theorem mem_handles_add_of_mem {h : Heap} {s : Handle} (i : Instance) (hs : s ∈ h.handles) :
    s ∈ (h.add i).2.handles := by
  rw [mem_handles] at hs ⊢
  have hsize : (h.add i).2.instances.size = h.instances.size + 1 := Array.size_push _
  omega

def create (h : Heap) (id : Identifier) : Handle × Heap :=
  h.add ⟨id, .empty, none, none, none⟩

/-- Add a schema with fields and, possibly, the text that it was read from. -/
def createWith (h : Heap) (fields : List (Field Handle)) (source : Option SourceText)
    (id : Identifier) : Except SchemaError (Handle × Heap) := do
  let table ← FieldTable.build fields
  return h.add ⟨id, table, none, none, source⟩

/-! ## Changes of one instance -/

def update (h : Heap) (s : Handle) (change : Instance → Instance) : Heap :=
  ⟨h.instances.modify s.index change⟩

/-- Put another field table in the place of a schema's own. -/
def setTable (h : Heap) (s : Handle) (table : FieldTable Handle) : Heap :=
  h.update s fun i => { i with table }

theorem instance?_update (h : Heap) (s : Handle) (change : Instance → Instance) (other : Handle) :
    (h.update s change).instance? other =
      if other = s then (h.instance? other).map change else h.instance? other := by
  cases s; cases other
  simp [instance?, update, Array.getElem?_modify, eq_comm]

@[simp]
theorem handles_update (h : Heap) (s : Handle) (change : Instance → Instance) :
    (h.update s change).handles = h.handles := by
  unfold handles update
  rw [Array.size_modify]

/-- A change that keeps the table of an instance keeps all tables. -/
theorem table_update {h : Heap} {s : Handle} {change : Instance → Instance}
    (keeps : ∀ i, (change i).table = i.table) (other : Handle) :
    (h.update s change).table other = h.table other := by
  unfold table
  rw [instance?_update]
  split
  · simp [Function.comp_def, keeps]
  · rfl

theorem table_setTable_self {h : Heap} {s : Handle} (inside : s ∈ h.handles)
    (table : FieldTable Handle) : (h.setTable s table).table s = table := by
  rw [mem_handles] at inside
  unfold Heap.table setTable
  rw [instance?_update, if_pos rfl]
  simp [instance?, inside]

theorem table_update_of_ne {h : Heap} {s other : Handle} (change : Instance → Instance)
    (different : other ≠ s) : (h.update s change).table other = h.table other := by
  unfold table
  rw [instance?_update, if_neg different]

/-- Only the table of the one instance is replaced. -/
theorem table_setTable_of_ne {h : Heap} {s other : Handle} (table : FieldTable Handle)
    (different : other ≠ s) : (h.setTable s table).table other = h.table other :=
  table_update_of_ne _ different

/-- Without an instance there is nothing to change. -/
theorem update_eq_self {h : Heap} {s : Handle} (outside : s ∉ h.handles)
    (change : Instance → Instance) : h.update s change = h := by
  rw [mem_handles, Nat.not_lt] at outside
  unfold update
  congr 1
  apply Array.ext_getElem?
  intro i
  rw [Array.getElem?_modify]
  split
  next same => simp [← same, outside]
  next => rfl

/-- A heap is determined by what its handles stand for. -/
theorem ext_instance? {h k : Heap} (same : ∀ s, h.instance? s = k.instance? s) : h = k := by
  cases h; cases k
  congr 1
  apply Array.ext_getElem?
  intro i
  exact same ⟨i⟩

/-- The last table that is put in the place of another is the one that counts. -/
theorem setTable_setTable (h : Heap) (s : Handle) (table other : FieldTable Handle) :
    (h.setTable s table).setTable s other = h.setTable s other := by
  apply ext_instance?
  intro r
  simp only [setTable, instance?_update]
  split
  · cases h.instance? r <;> rfl
  · rfl

theorem setTable_table_self (h : Heap) (s : Handle) : h.setTable s (h.table s) = h := by
  apply ext_instance?
  intro r
  rw [setTable, instance?_update]
  split
  next same =>
    subst same
    unfold table
    cases h.instance? r <;> rfl
  next => rfl

/-- A table is as it was, or else it is the one that was replaced. -/
theorem table_setTable_cases (h : Heap) (s : Handle) (table : FieldTable Handle) (other : Handle) :
    (h.setTable s table).table other = h.table other ∨
      other = s ∧ (h.setTable s table).table other = table := by
  by_cases inside : s ∈ h.handles
  · by_cases hother : other = s
    · subst hother
      exact .inr ⟨rfl, table_setTable_self inside table⟩
    · exact .inl (table_setTable_of_ne table hother)
  · rw [setTable, update_eq_self inside]
    exact .inl rfl

/-- Every table is the new one or the one that it was. -/
theorem table_setTable_eq_or (h : Heap) (s : Handle) (table : FieldTable Handle) (other : Handle) :
    (h.setTable s table).table other = table ∨
      (h.setTable s table).table other = h.table other := by
  rcases h.table_setTable_cases s table other with hsame | ⟨-, hnew⟩
  · exact .inr hsame
  · exact .inl hnew

def install (h : Heap) (s : Handle) (fields : List (Field Handle)) : Except SchemaError Heap := do
  let table ← FieldTable.build fields
  return h.setTable s table

def removeField? (h : Heap) (s : Handle) (name : String) : Option (Field Handle × Heap) := do
  let (field, table) ← (h.table s).remove? name
  return (field, h.setTable s table)

/-- Give the field of a schema that has a name a new one; nothing if no field has it. -/
def renameField (h : Heap) (s : Handle) (name newName : String) :
    Except SchemaError (Option Heap) := do
  let edited ← (h.table s).rename name newName
  return edited.map (h.setTable s)

def setName (h : Heap) (s : Handle) (name : Option String) : Heap :=
  h.update s fun i => { i with name }

def setNamespace (h : Heap) (s : Handle) (nameSpace : Option String) : Heap :=
  h.update s fun i => { i with nameSpace }

end Heap

end SchemaGraph
