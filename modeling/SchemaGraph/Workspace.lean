import Std.Data.TreeMap
import SchemaGraph.Acceptance
import SchemaGraph.Script

/-!
# Workspaces

A workspace is a heap of schemas together with names for some of its parts: names for schemas, for
fields that were kept, and for snapshots of field tables. Several names may stand for one schema,
and a schema stays where it is when its last name is forgotten, since fields may still refer to
it. A snapshot is a field table as it was: later changes of the schema do not reach it.

* `Command`: everything that may change a workspace.
* `Workspace.execute`: the effect of a command, or why it is refused.
* `Workspace.step`: the same, where a refused command leaves the workspace as it was.
* `Workspace.run`: a sequence of commands.
* `Workspace.perform`: a command as a program that changes the workspace in place.

Types are written with the names of schemas; the schema that a name stands for is looked up when
the command is executed.
-/

namespace SchemaGraph

/-- Named parts of a heap of schemas. -/
structure Workspace where
  heap : Heap
  schemas : Std.TreeMap String Handle
  fields : Std.TreeMap String (Field Handle)
  snapshots : Std.TreeMap String (FieldTable Handle)

/-- A field to be used by a command. -/
inductive FieldSpec where
  /-- A field that was kept under a name. -/
  | kept (name : String)
  /-- A field to be built, whose type has names of schemas as references. -/
  | built (draft : Field String)

/-- Everything that may change a workspace. What a command yields is named `target`. -/
inductive Command where
  | create (target : String) (identifier : Identifier)
  | createWith (target : String) (fields : List FieldSpec) (source : Option SourceText)
      (identifier : Identifier)
  /-- Give a schema one more name. -/
  | share (schema target : String)
  | forget (schema : String)
  /-- Put a list of fields in the place of the fields of a schema. -/
  | install (schema : String) (fields : List FieldSpec)
  | remove (schema name : String) (target : Option String)
  | rename (schema name newName : String)
  /-- Give a schema a name of its own, or take it away. -/
  | setName (schema : String) (name : Option String)
  | setNamespace (schema : String) (nameSpace : Option String)
  /-- Keep the field table of a schema as it is. -/
  | snapshot (schema target : String)
  /-- Keep the field of a schema that has a text as its name or alias. -/
  | keepNamed (schema text : String) (target : Option String)
  | keepAt (schema : String) (position : Nat) (target : Option String)
  | keepBuilt (field : FieldSpec) (target : Option String)
  /-- Build a field, and take it under a new name. -/
  | keepRenamed (field : FieldSpec) (newName : String) (target : Option String)

inductive Refusal where
  /-- Nothing has the name. -/
  | unknown (name : String)
  /-- A field or a field list is at fault. -/
  | invalid (cause : SchemaError)

inductive Reply where
  | done
  | answer (yes : Bool)
  | field (found : Option (Field Handle))

namespace Workspace

def empty : Workspace := ⟨.empty, ∅, ∅, ∅⟩

/-! ## Names -/

def schema (w : Workspace) (name : String) : Except Refusal Handle :=
  match w.schemas[name]? with
  | some s => .ok s
  | none => .error (.unknown name)

def snapshot (w : Workspace) (name : String) : Except Refusal (FieldTable Handle) :=
  match w.snapshots[name]? with
  | some t => .ok t
  | none => .error (.unknown name)

/-- The names that stand for a schema, in order. -/
def owners (w : Workspace) (s : Handle) : List String :=
  (w.schemas.toList.filter fun (_, other) => other = s).map Prod.fst

/-- The type that is written with names. -/
def resolveType (w : Workspace) (t : DataType String) : Except Refusal (DataType Handle) :=
  t.resolve w.schema

/-- Keep the names of the schemas, over a changed heap. -/
def withHeap (w : Workspace) (heap : Heap) : Workspace :=
  { w with heap }

def nameSchema (w : Workspace) (target : String) (s : Handle) : Workspace :=
  { w with schemas := w.schemas.insert target s }

/-- Let a name, if there is one, stand for a field. -/
def keepField (w : Workspace) (target : Option String) (f : Field Handle) : Workspace :=
  match target with
  | none => w
  | some name => { w with fields := w.fields.insert name f }

/-- Let a name stand for a field that may be missing, and report it. -/
def keepFound (w : Workspace) (target : Option String) (found : Option (Field Handle)) :
    Reply × Workspace :=
  match found with
  | none => (.field none, w)
  | some f => (.field found, w.keepField target f)

/-! ## Fields -/

/-- Refuse what a field or a field list is at fault for. -/
def orRefuse {α : Type} : Except SchemaError α → Except Refusal α
  | .ok a => .ok a
  | .error cause => .error (.invalid cause)

theorem orRefuse_eq_ok_iff {α : Type} {x : Except SchemaError α} {a : α} :
    orRefuse x = .ok a ↔ x = .ok a := by
  cases x <;> simp [orRefuse]

theorem orRefuse_bind {α β : Type} (x : Except SchemaError α)
    (rest : α → Except SchemaError β) :
    orRefuse (x >>= rest) = orRefuse x >>= fun a => orRefuse (rest a) := by
  cases x with
  | error cause => rfl
  | ok a => rfl

def field (w : Workspace) : FieldSpec → Except Refusal (Field Handle)
  | .kept name =>
    match w.fields[name]? with
    | some f => .ok f
    | none => .error (.unknown name)
  | .built draft => do
    let dataType ← w.resolveType draft.dataType
    orRefuse (w.heap.checkField { draft with dataType })

/-! ## Commands -/

/-- The effect of a command. Fields are built one after another before anything else is looked
at. -/
def execute (w : Workspace) : Command → Except Refusal (Reply × Workspace)
  | .create target identifier =>
    let (s, heap) := w.heap.create identifier
    .ok (.done, (w.withHeap heap).nameSchema target s)
  | .createWith target fields source identifier => do
    let fields ← fields.mapM w.field
    let (s, heap) ← orRefuse (w.heap.createWith fields source identifier)
    return (.done, (w.withHeap heap).nameSchema target s)
  | .share schema target => do
    return (.done, w.nameSchema target (← w.schema schema))
  | .forget schema =>
    .ok (.answer (w.schemas.contains schema), { w with schemas := w.schemas.erase schema })
  | .install schema fields => do
    let s ← w.schema schema
    let fields ← fields.mapM w.field
    let heap ← orRefuse (w.heap.install s fields)
    return (.done, w.withHeap heap)
  | .remove schema name target => do
    match w.heap.removeField? (← w.schema schema) name with
    | none => return (.field none, w)
    | some (f, heap) => return (.field (some f), (w.withHeap heap).keepField target f)
  | .rename schema name newName => do
    match ← orRefuse (w.heap.renameField (← w.schema schema) name newName) with
    | none => return (.answer false, w)
    | some heap => return (.answer true, w.withHeap heap)
  | .setName schema name => do
    return (.done, w.withHeap (w.heap.setName (← w.schema schema) name))
  | .setNamespace schema nameSpace => do
    return (.done, w.withHeap (w.heap.setNamespace (← w.schema schema) nameSpace))
  | .snapshot schema target => do
    let table := w.heap.table (← w.schema schema)
    return (.done, { w with snapshots := w.snapshots.insert target table })
  | .keepNamed schema text target => do
    return w.keepFound target (w.heap.field? (← w.schema schema) text)
  | .keepAt schema position target => do
    return w.keepFound target (w.heap.fieldAt? (← w.schema schema) position)
  | .keepBuilt field target => do
    return w.keepFound target (some (← w.field field))
  | .keepRenamed field newName target => do
    return w.keepFound target (some (← orRefuse ((← w.field field).renamed newName)))

/-- The effect of a command, where a refused one leaves the workspace as it was. -/
def step (w : Workspace) (c : Command) : Except Refusal Reply × Workspace :=
  match w.execute c with
  | .ok (reply, next) => (.ok reply, next)
  | .error refusal => (.error refusal, w)

def run (w : Workspace) (commands : List Command) : Workspace :=
  commands.foldl (fun w c => (w.step c).2) w

/-! ## Commands in place -/

open Script

/-- Make an instance. -/
def allocate (i : Instance) : Script Refusal Workspace Handle := do
  let s ← look fun w => .ok (w.heap.add i).1
  write fun w => w.withHeap (w.heap.add i).2
  return s

def writeTable (s : Handle) (table : FieldTable Handle) : Script Refusal Workspace Unit :=
  write fun w => w.withHeap (w.heap.setTable s table)

def findSchema (name : String) : Script Refusal Workspace Handle :=
  look fun w => w.schema name

def buildField (spec : FieldSpec) : Script Refusal Workspace (Field Handle) :=
  look fun w => w.field spec

/-- The indices of a field list, if no name or alias occurs twice. -/
def indexFields (fields : List (Field Handle)) : Script Refusal Workspace (FieldTable Handle) :=
  look fun _ => orRefuse (FieldTable.build fields)

def keepReply (target : Option String) (found : Option (Field Handle)) :
    Script Refusal Workspace Reply := do
  match found with
  | none => return .field none
  | some f =>
    write fun w => w.keepField target f
    return .field found

/-- The commands as programs. The fields of a schema are edited aside, and the outcome is written
when it has passed its checks. -/
def perform : Command → Script Refusal Workspace Reply
  | .create target identifier => do
    let s ← allocate ⟨identifier, .empty, none, none, none⟩
    write fun w => w.nameSchema target s
    return .done
  | .createWith target specs source identifier => do
    let fields ← specs.mapM buildField
    let table ← indexFields fields
    let s ← allocate ⟨identifier, table, none, none, source⟩
    write fun w => w.nameSchema target s
    return .done
  | .share schema target => do
    let s ← findSchema schema
    write fun w => w.nameSchema target s
    return .done
  | .forget schema => do
    let known ← look fun w => .ok (w.schemas.contains schema)
    write fun w => { w with schemas := w.schemas.erase schema }
    return .answer known
  | .install schema specs => do
    let s ← findSchema schema
    let fields ← specs.mapM buildField
    let table ← indexFields fields
    writeTable s table
    return .done
  | .remove schema name target => do
    let s ← findSchema schema
    let table ← look fun w => .ok (w.heap.table s)
    match table.remove? name with
    | none => return .field none
    | some (f, rest) =>
      writeTable s rest
      write fun w => w.keepField target f
      return .field (some f)
  | .rename schema name newName => do
    let s ← findSchema schema
    let table ← look fun w => .ok (w.heap.table s)
    match table.nameIndex[name]? with
    | none => return .answer false
    | some i =>
      match table.fields[i]? with
      | none => return .answer false
      | some f =>
        let renamed ← look fun _ => orRefuse (f.renamed newName)
        let edited ← indexFields (table.fields.set i renamed)
        writeTable s edited
        return .answer true
  | .setName schema name => do
    let s ← findSchema schema
    write fun w => w.withHeap (w.heap.setName s name)
    return .done
  | .setNamespace schema nameSpace => do
    let s ← findSchema schema
    write fun w => w.withHeap (w.heap.setNamespace s nameSpace)
    return .done
  | .snapshot schema target => do
    let s ← findSchema schema
    write fun w => { w with snapshots := w.snapshots.insert target (w.heap.table s) }
    return .done
  | .keepNamed schema text target => do
    let s ← findSchema schema
    let found ← look fun w => .ok (w.heap.field? s text)
    keepReply target found
  | .keepAt schema position target => do
    let s ← findSchema schema
    let found ← look fun w => .ok (w.heap.fieldAt? s position)
    keepReply target found
  | .keepBuilt spec target => do
    let f ← buildField spec
    keepReply target (some f)
  | .keepRenamed spec newName target => do
    let f ← buildField spec
    let renamed ← look fun _ => orRefuse (f.renamed newName)
    keepReply target (some renamed)

end Workspace

end SchemaGraph
