import Std.Data.TreeMap
import SchemaGraph.Field.Basic

/-!
# Field tables

The ordered fields of a schema, with an index from names and one from aliases to positions.

* `FieldTable.indexed`: the table of a list of fields. It does not look for repetitions.
* `FieldTable.build`: the same for a list in which no name or alias occurs twice. Of the names and
  aliases in field order, each field's name before its aliases, the first one that occurred before
  is the failure.
* `FieldTable.byName`: the field that has a text as its name, or else as an alias.
* `FieldTable.remove?`, `FieldTable.rename`: edit the field that has a name. An alias does not
  count as a name here. Taking a field away cannot bring a repetition about, so the rest is not
  looked at again; a new name can, so the edited list is.
-/

namespace SchemaGraph

def nameEntries {ρ : Type} (fields : List (Field ρ)) : List (String × Nat) :=
  fields.zipIdx.map fun (f, i) => (f.name, i)

def aliasEntries {ρ : Type} (fields : List (Field ρ)) : List (String × Nat) :=
  fields.zipIdx.flatMap fun (f, i) => f.aliases.toList.map fun a => (a, i)

/-- The fields of a schema in order, with their indices. -/
structure FieldTable (ρ : Type) where
  fields : List (Field ρ)
  nameIndex : Std.TreeMap String Nat
  aliasIndex : Std.TreeMap String Nat
  nameIndex_eq : nameIndex = .ofList (nameEntries fields)
  aliasIndex_eq : aliasIndex = .ofList (aliasEntries fields)

namespace FieldTable

variable {ρ : Type}

def indexed (fields : List (Field ρ)) : FieldTable ρ :=
  ⟨fields, .ofList (nameEntries fields), .ofList (aliasEntries fields), rfl, rfl⟩

def empty : FieldTable ρ :=
  indexed []

@[simp]
theorem fields_indexed (fields : List (Field ρ)) : (indexed fields).fields = fields := rfl

/-- A table is determined by its fields. -/
theorem ext_fields {t u : FieldTable ρ} (h : t.fields = u.fields) : t = u := by
  obtain ⟨fields, names, aliases, rfl, rfl⟩ := t
  obtain ⟨fields', names', aliases', rfl, rfl⟩ := u
  cases h
  rfl

/-! ## Repetitions -/

/-- The names and aliases of a list of fields, in the order in which they are looked at. -/
def identifiers (fields : List (Field ρ)) : List String :=
  fields.flatMap Field.identifiers

/-- The first text of a list that is among those seen before it. -/
def firstRepeated (seen : List String) : List String → Option String
  | [] => none
  | a :: rest => if a ∈ seen then some a else firstRepeated (a :: seen) rest

/-- Refuse a list of fields in which a name or alias occurs twice. -/
def checkDistinct (fields : List (Field ρ)) : Except SchemaError Unit :=
  match firstRepeated [] (identifiers fields) with
  | none => .ok ()
  | some a => .error (.duplicateIdentifier a)

/-- The table of a list of fields without repetitions. -/
def build (fields : List (Field ρ)) : Except SchemaError (FieldTable ρ) := do
  checkDistinct fields
  return indexed fields

/-! ## Look-up -/

/-- The position of the field that has a text as its name, or else as an alias. -/
def position? (t : FieldTable ρ) (text : String) : Option Nat :=
  t.nameIndex[text]? <|> t.aliasIndex[text]?

/-- The field that has a text as its name, or else as an alias. -/
def byName (t : FieldTable ρ) (text : String) : Option (Field ρ) := do
  t.fields[← t.position? text]?

/-! ## Edits -/

def remove? (t : FieldTable ρ) (name : String) : Option (Field ρ × FieldTable ρ) := do
  let i ← t.nameIndex[name]?
  let f ← t.fields[i]?
  return (f, indexed (t.fields.eraseIdx i))

/-- Give the field that has a name a new one; nothing if no field has it. -/
def rename (t : FieldTable ρ) (name newName : String) :
    Except SchemaError (Option (FieldTable ρ)) :=
  match t.nameIndex[name]? with
  | none => .ok none
  | some i =>
    match t.fields[i]? with
    | none => .ok none
    | some f => do
      let renamed ← f.renamed newName
      some <$> build (t.fields.set i renamed)

end FieldTable

end SchemaGraph
