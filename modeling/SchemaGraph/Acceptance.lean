import SchemaGraph.Heap.Basic

/-!
# Which values a type accepts

* `isIntegerText`, `isUuidText`: the forms of text that two types take.
* `isIntegerUtf8`, `isUuidUtf8`: the same forms, looked for in bytes.
* `BasicType.accepts`: the rule of each type that holds no other type.
* `Heap.accepts`: the rules of all types. A value of a record type is a map whose keys are names
  or aliases of the nested schema; a field may be left out, a key that no field answers to may
  not.

The rules go down in the value, or else in the type with the value kept, so they come to an end
also where a schema leads back to itself.
-/

namespace SchemaGraph

/-- An optional minus sign and one or more ASCII digits. -/
def isIntegerText (s : String) : Bool :=
  let digits :=
    match s.toList with
    | '-' :: rest => rest
    | all => all
  !digits.isEmpty && digits.all Char.isDigit

/-- An ASCII digit or one of the first six letters. -/
def isHexDigit (c : Char) : Bool :=
  c.isDigit || ('a' ≤ c && c ≤ 'f') || ('A' ≤ c && c ≤ 'F')

/-- Groups of 8, 4, 4, 4 and 12 hexadecimal digits with hyphens between them. -/
def isUuidText (s : String) : Bool :=
  s.toList.length == 36 && s.toList.zipIdx.all fun (c, i) =>
    if [8, 13, 18, 23].contains i then c == '-' else isHexDigit c

/-! ## Texts in bytes -/

/-- The character that has a byte as its number. -/
def byteChar (b : UInt8) : Char :=
  Char.ofNat b.toNat

/-- What follows a minus sign, or all if there is none. -/
def unsigned : List UInt8 → List UInt8
  | 0x2d :: rest => rest
  | all => all

/-- The form of an integer, looked for in bytes. -/
def isIntegerUtf8 (bytes : List UInt8) : Bool :=
  !(unsigned bytes).isEmpty && (unsigned bytes).all fun b => (byteChar b).isDigit

/-- What is looked at in a place of a UUID. -/
def isUuidChar (place : Char × Nat) : Bool :=
  if [8, 13, 18, 23].contains place.2 then place.1 == '-' else isHexDigit place.1

/-- The form of a UUID, looked for in bytes. -/
def isUuidUtf8 (bytes : List UInt8) : Bool :=
  bytes.length == 36 && bytes.zipIdx.all fun place => isUuidChar (byteChar place.1, place.2)

/-! ## Types that hold no other type -/

/-- Whether an integer is neither less than one bound nor greater than another. -/
def isWithin (least greatest : Int) (i : Int64) : Bool :=
  least ≤ i.toInt && i.toInt ≤ greatest

/-- Whether a value is one of a type that holds no other type. A text stands for an instant or a
day in any form, so every text and every integer is accepted there. -/
def BasicType.accepts (b : BasicType) (v : Value) : Bool :=
  match b, v with
  | .boolean, .boolean _ => true
  | .byte, .int i => isWithin (-128) 127 i
  | .short, .int i => isWithin (-32768) 32767 i
  | .int, .int i => isWithin (-2147483648) 2147483647 i
  | .long, .int _ | .bigInt, .int _ => true
  | .bigInt, .string s => isIntegerText s
  | .float, .int _ | .float, .float _ => true
  | .double, .int _ | .double, .float _ => true
  | .decimal _ _, .int _ | .decimal _ _, .float _ => true
  | .char, .string s => s.toList.length == 1
  | .string, v => v.isScalar
  | .date _, .int _ | .date _, .string _ => true
  | .time _, .int _ | .time _, .string _ => true
  | .timestamp _, .int _ | .timestamp _, .string _ => true
  | .uuid, .string s => isUuidText s
  | .uuid, .bytes content => content.length == 16
  | .enum symbols, .string s => symbols.contains s
  | _, _ => false

/-! ## All types -/

namespace Heap

private theorem sizeOf_snd_lt_of_mem {entry : String × Value} {entries : List (String × Value)}
    (mem : entry ∈ entries) : sizeOf entry.2 < sizeOf entries := by
  have := List.sizeOf_lt_of_mem mem
  obtain ⟨key, value⟩ := entry
  simp only [Prod.mk.sizeOf_spec] at this ⊢
  omega

/-- Whether a value is one of a type. Bytes are an array of bytes, for that element type alone. -/
def accepts (h : Heap) (t : DataType Handle) (v : Value) : Bool :=
  match t, v with
  | .basic b, v => b.accepts v
  | .array element, .array items => items.attach.all fun ⟨item, _⟩ => h.accepts element item
  | .array (.basic .byte), .bytes _ => true
  | .map value, .map entries => entries.attach.all fun ⟨entry, _⟩ => h.accepts value entry.2
  | .choice options, v => options.attach.any fun ⟨option, _⟩ => h.accepts option v
  | .record s, .map entries =>
    entries.attach.all fun ⟨entry, _⟩ =>
      match h.field? s entry.1 with
      | none => false
      | some f => h.accepts f.dataType entry.2
  | _, _ => false
termination_by (sizeOf v, sizeOf t)
decreasing_by
  · have := List.sizeOf_lt_of_mem ‹_›
    exact .left _ _ (by simp only [Value.array.sizeOf_spec]; omega)
  · have := sizeOf_snd_lt_of_mem ‹_›
    exact .left _ _ (by simp only [Value.map.sizeOf_spec]; omega)
  · have := List.sizeOf_lt_of_mem ‹_›
    exact .right _ (by simp only [DataType.choice.sizeOf_spec]; omega)
  · have := sizeOf_snd_lt_of_mem ‹_›
    exact .left _ _ (by simp only [Value.map.sizeOf_spec]; omega)

@[simp]
theorem accepts_basic (h : Heap) (b : BasicType) (v : Value) :
    h.accepts (.basic b) v = b.accepts v := by
  rw [accepts]

@[simp]
theorem accepts_array (h : Heap) (t : DataType Handle) (items : List Value) :
    h.accepts (.array t) (.array items) = items.all (h.accepts t) := by
  rw [accepts]
  simp only [List.all_subtype, List.unattach_attach]

@[simp]
theorem accepts_map (h : Heap) (t : DataType Handle) (entries : List (String × Value)) :
    h.accepts (.map t) (.map entries) = entries.all fun entry => h.accepts t entry.2 := by
  rw [accepts]
  simp only [List.all_subtype, List.unattach_attach]

@[simp]
theorem accepts_choice (h : Heap) (options : List (DataType Handle)) (v : Value) :
    h.accepts (.choice options) v = options.any fun option => h.accepts option v := by
  rw [accepts]
  simp only [List.any_subtype, List.unattach_attach]

@[simp]
theorem accepts_record (h : Heap) (s : Handle) (entries : List (String × Value)) :
    h.accepts (.record s) (.map entries) = entries.all fun entry =>
      match h.field? s entry.1 with
      | none => false
      | some f => h.accepts f.dataType entry.2 := by
  rw [accepts]
  simp only [List.all_subtype, List.unattach_attach]

/-- A field that may stand in a schema: it has a name, and its default value is one of its type. -/
def checkField (h : Heap) (f : Field Handle) : Except SchemaError (Field Handle) :=
  f.checked h.accepts

end Heap

end SchemaGraph
