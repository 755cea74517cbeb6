import SchemaGraph.Proofs.Congruence
import SchemaGraph.Proofs.Literals

/-!
# What it means to be a value of a type

That a value is one of a type is given by rules here, each of which derives it from finitely many
cases that lie deeper in the value, or in the options of a choice with the value kept. A type may
lead back to itself through a schema, and a schema may contain nothing but itself; then a derivation
still has to end, and there is one only where the value ends first. `Heap.accepts` decides whether
there is a derivation. It comes to an end because it looks at one case only for the sake of another
that is deeper in the value, or as deep in the value and deeper in the type.

* `BasicType.Valid`, `Heap.Valid`: the rules.
* `Heap.Consults`: which case is looked at for the sake of which.
* `BasicType.valid_of_accepts`, `Heap.valid_of_accepts`: what is accepted can be derived.
* `BasicType.accepts_of_valid`, `Heap.accepts_of_valid`: what can be derived is accepted.
* `Heap.accepts_iff_derivable`: both, with what the rules rest on: that there is no endless descent,
  what it means that a key resolves to a field, and that a text may be looked at in bytes.
-/

namespace SchemaGraph

/-! ## Types that hold no other types -/

namespace BasicType

/-- The number of bits of the integers of a type. -/
def bits? : BasicType → Option Nat
  | .byte => some 8
  | .short => some 16
  | .int => some 32
  | .long => some 64
  | _ => none

/-- A type of numbers with a fraction. -/
inductive IsFractional : BasicType → Prop
  | float : IsFractional .float
  | double : IsFractional .double
  | decimal (precision scale : UInt32) : IsFractional (.decimal precision scale)

/-- A type of days, times of the day or moments. -/
inductive IsTemporal : BasicType → Prop
  | date (format : Option String) : IsTemporal (.date format)
  | time (format : Option String) : IsTemporal (.time format)
  | timestamp (format : Option String) : IsTemporal (.timestamp format)

/-- The rules for types that hold no other types. -/
inductive Valid : BasicType → Value → Prop
  | boolean (b : Bool) : Valid .boolean (.boolean b)
  /-- An integer fits into the signed words of the type. -/
  | integer {b : BasicType} {bits : Nat} {i : Int64} (width : b.bits? = some bits)
      (least : -2 ^ (bits - 1) ≤ i.toInt) (greatest : i.toInt < 2 ^ (bits - 1)) :
      Valid b (.int i)
  | bigInteger (i : Int64) : Valid .bigInt (.int i)
  | bigIntegerText {s : String} (form : IntegerText s.toList) : Valid .bigInt (.string s)
  | whole {b : BasicType} (fractional : b.IsFractional) (i : Int64) : Valid b (.int i)
  | fraction {b : BasicType} (fractional : b.IsFractional) (x : Binary64) : Valid b (.float x)
  | char (c : Char) {s : String} (single : s.toList = [c]) : Valid .char (.string s)
  | string {v : Value} (notArray : ∀ items, v ≠ .array items)
      (notMap : ∀ entries, v ≠ .map entries) : Valid .string v
  | instant {b : BasicType} (temporal : b.IsTemporal) (i : Int64) : Valid b (.int i)
  | instantText {b : BasicType} (temporal : b.IsTemporal) (s : String) : Valid b (.string s)
  | uuid {content : List UInt8} (length : content.length = 16) : Valid .uuid (.bytes content)
  | uuidText {s : String} (form : UuidText s.toList) : Valid .uuid (.string s)
  | symbol {symbols : List String} {s : String} (listed : s ∈ symbols) :
      Valid (.enum symbols) (.string s)

theorem isWithin_iff {least greatest : Int} {i : Int64} :
    isWithin least greatest i = true ↔ least ≤ i.toInt ∧ i.toInt ≤ greatest := by
  simp [isWithin]

theorem valid_of_accepts {b : BasicType} {v : Value} (h : b.accepts v = true) : b.Valid v := by
  unfold accepts at h
  split at h
  case h_1 b => exact .boolean b
  case h_2 i =>
    obtain ⟨least, greatest⟩ := isWithin_iff.mp h
    exact .integer rfl least (Int.lt_add_one_of_le greatest)
  case h_3 i =>
    obtain ⟨least, greatest⟩ := isWithin_iff.mp h
    exact .integer rfl least (Int.lt_add_one_of_le greatest)
  case h_4 i =>
    obtain ⟨least, greatest⟩ := isWithin_iff.mp h
    exact .integer rfl least (Int.lt_add_one_of_le greatest)
  case h_5 i => exact .integer rfl i.le_toInt i.toInt_lt
  case h_6 i => exact .bigInteger i
  case h_7 s => exact .bigIntegerText ((isIntegerText_iff s).mp h)
  case h_8 i => exact .whole .float i
  case h_9 x => exact .fraction .float x
  case h_10 i => exact .whole .double i
  case h_11 x => exact .fraction .double x
  case h_12 p s i => exact .whole (.decimal p s) i
  case h_13 p s x => exact .fraction (.decimal p s) x
  case h_14 s =>
    obtain ⟨c, hc⟩ := List.length_eq_one_iff.mp (beq_iff_eq.mp h)
    exact .char c hc
  case h_15 v =>
    refine .string ?_ ?_
    · rintro items rfl
      cases h
    · rintro entries rfl
      cases h
  case h_16 f i => exact .instant (.date f) i
  case h_17 f s => exact .instantText (.date f) s
  case h_18 f i => exact .instant (.time f) i
  case h_19 f s => exact .instantText (.time f) s
  case h_20 f i => exact .instant (.timestamp f) i
  case h_21 f s => exact .instantText (.timestamp f) s
  case h_22 s => exact .uuidText ((isUuidText_iff s).mp h)
  case h_23 content => exact .uuid (beq_iff_eq.mp h)
  case h_24 symbols s => exact .symbol (List.contains_iff_mem.mp h)
  case h_25 => cases h

theorem accepts_of_valid {b : BasicType} {v : Value} (h : b.Valid v) : b.accepts v = true := by
  cases h with
  | boolean b => rfl
  | @integer b bits i width least greatest =>
    cases b with
    | byte =>
      obtain rfl : 8 = bits := Option.some.inj width
      exact isWithin_iff.mpr ⟨least, Int.le_of_lt_add_one greatest⟩
    | short =>
      obtain rfl : 16 = bits := Option.some.inj width
      exact isWithin_iff.mpr ⟨least, Int.le_of_lt_add_one greatest⟩
    | int =>
      obtain rfl : 32 = bits := Option.some.inj width
      exact isWithin_iff.mpr ⟨least, Int.le_of_lt_add_one greatest⟩
    | long => rfl
    | _ => cases width
  | bigInteger i => rfl
  | bigIntegerText form => exact (isIntegerText_iff _).mpr form
  | whole fractional i => cases fractional <;> rfl
  | fraction fractional x => cases fractional <;> rfl
  | char c single => exact beq_iff_eq.mpr (congrArg List.length single)
  | string notArray notMap =>
    cases v with
    | array items => exact absurd rfl (notArray items)
    | map entries => exact absurd rfl (notMap entries)
    | _ => rfl
  | instant temporal i => cases temporal <;> rfl
  | instantText temporal s => cases temporal <;> rfl
  | uuid length => exact beq_iff_eq.mpr length
  | uuidText form => exact (isUuidText_iff _).mpr form
  | symbol listed => exact List.contains_iff_mem.mpr listed

end BasicType

namespace Heap

/-! ## All types -/

/-- The rules for values of all types. -/
inductive Valid (h : Heap) : DataType Handle → Value → Prop
  | basic {b : BasicType} {v : Value} (valid : b.Valid v) : Valid h (.basic b) v
  | array {t : DataType Handle} {items : List Value} (each : ∀ item ∈ items, Valid h t item) :
      Valid h (.array t) (.array items)
  | bytes (content : List UInt8) : Valid h (.array (.basic .byte)) (.bytes content)
  | map {t : DataType Handle} {entries : List (String × Value)}
      (each : ∀ entry ∈ entries, Valid h t entry.2) : Valid h (.map t) (.map entries)
  | choice {options : List (DataType Handle)} {option : DataType Handle} {v : Value}
      (mem : option ∈ options) (valid : Valid h option v) : Valid h (.choice options) v
  /-- Every key resolves to a field, and the value under it is one of the type of the field. -/
  | record {s : Handle} {entries : List (String × Value)}
      (resolves : ∀ entry ∈ entries, ∃ f, h.field? s entry.1 = some f)
      (each : ∀ entry ∈ entries, ∀ f, h.field? s entry.1 = some f → Valid h f.dataType entry.2) :
      Valid h (.record s) (.map entries)

variable {h : Heap} {t : DataType Handle} {v : Value} {s : Handle} {key : String}

/-- A type and a value that are looked at for the sake of another type and value. -/
inductive Consults (h : Heap) : DataType Handle × Value → DataType Handle × Value → Prop
  | item {t : DataType Handle} {items : List Value} {item : Value} (mem : item ∈ items) :
      Consults h (t, item) (.array t, .array items)
  | value {t : DataType Handle} {entries : List (String × Value)} {entry : String × Value}
      (mem : entry ∈ entries) : Consults h (t, entry.2) (.map t, .map entries)
  | option {options : List (DataType Handle)} {option : DataType Handle} {v : Value}
      (mem : option ∈ options) : Consults h (option, v) (.choice options, v)
  | field {s : Handle} {entries : List (String × Value)} {entry : String × Value}
      {f : Field Handle} (mem : entry ∈ entries) (found : h.field? s entry.1 = some f) :
      Consults h (f.dataType, entry.2) (.record s, .map entries)

/-- The value gets less, or else the type does and the value stays. -/
theorem Consults.lex {c d : DataType Handle × Value} (hcd : h.Consults c d) :
    Prod.Lex (· < ·) (· < ·) (sizeOf c.2, sizeOf c.1) (sizeOf d.2, sizeOf d.1) := by
  have hentry : ∀ {entries : List (String × Value)} {entry : String × Value},
      entry ∈ entries → sizeOf entry.2 < sizeOf (Value.map entries) := by
    intro entries entry mem
    have hmem := List.sizeOf_lt_of_mem mem
    obtain ⟨key, value⟩ := entry
    simp only [Prod.mk.sizeOf_spec, Value.map.sizeOf_spec] at hmem ⊢
    omega
  cases hcd with
  | item mem =>
    have := List.sizeOf_lt_of_mem mem
    exact .left _ _ (by simp only [Value.array.sizeOf_spec]; omega)
  | value mem => exact .left _ _ (hentry mem)
  | option mem =>
    have := List.sizeOf_lt_of_mem mem
    exact .right _ (by simp only [DataType.choice.sizeOf_spec]; omega)
  | field mem found => exact .left _ _ (hentry mem)

theorem wellFounded_consults (h : Heap) : WellFounded h.Consults := by
  have hlex : WellFounded (Prod.Lex (fun m n : Nat => m < n) fun m n : Nat => m < n) :=
    (Prod.lex Nat.lt_wfRel Nat.lt_wfRel).wf
  have hsizes := InvImage.wf (fun c : DataType Handle × Value => (sizeOf c.2, sizeOf c.1)) hlex
  exact Subrelation.wf Consults.lex hsizes

theorem accepts_of_valid (hv : h.Valid t v) : h.accepts t v = true := by
  induction hv with
  | basic valid =>
    rw [accepts_basic]
    exact BasicType.accepts_of_valid valid
  | array _ ih =>
    rw [accepts_array, List.all_eq_true]
    exact ih
  | bytes content => rw [Heap.accepts]
  | map _ ih =>
    rw [accepts_map, List.all_eq_true]
    exact ih
  | choice mem _ ih =>
    rw [accepts_choice, List.any_eq_true]
    exact ⟨_, mem, ih⟩
  | record resolves _ ih =>
    rw [accepts_record, List.all_eq_true]
    intro entry mem
    obtain ⟨f, hf⟩ := resolves entry mem
    rw [hf]
    exact ih entry mem f hf

theorem valid_of_accepts (haccepts : h.accepts t v = true) : h.Valid t v := by
  -- The induction follows the rules: down in the value, or in the options of a choice.
  fun_induction h.accepts t v with
  | case1 b v => exact .basic (BasicType.valid_of_accepts haccepts)
  | case2 element items ih =>
    simp only [List.all_subtype, List.unattach_attach, List.all_eq_true] at haccepts
    exact .array fun item mem => ih item mem (haccepts item mem)
  | case3 content => exact .bytes content
  | case4 value entries ih =>
    simp only [List.all_subtype, List.unattach_attach, List.all_eq_true] at haccepts
    exact .map fun entry mem => ih entry mem (haccepts entry mem)
  | case5 options v ih =>
    simp only [List.any_subtype, List.unattach_attach, List.any_eq_true] at haccepts
    obtain ⟨option, mem, haccepts⟩ := haccepts
    exact .choice mem (ih option mem haccepts)
  | case6 s entries ih =>
    simp only [List.all_subtype, List.unattach_attach, List.all_eq_true] at haccepts
    have hfound : ∀ entry ∈ entries, ∃ f, h.field? s entry.1 = some f ∧
        h.accepts f.dataType entry.2 = true := by
      intro entry mem
      have hentry := haccepts entry mem
      split at hentry
      next => cases hentry
      next f hf => exact ⟨f, hf, hentry⟩
    refine .record (fun entry mem => ?_) fun entry mem f hf => ?_
    · obtain ⟨f, hf, -⟩ := hfound entry mem
      exact ⟨f, hf⟩
    · obtain ⟨g, hg, haccepts⟩ := hfound entry mem
      obtain rfl : f = g := Option.some.inj (hf.symm.trans hg)
      exact ih entry mem f haccepts
  | case7 => cases haccepts

/-- A key resolves to a field that has it as its name or as an alias. -/
theorem answersTo_of_field? {f : Field Handle} (hf : h.field? s key = some f) :
    f ∈ h.fields s ∧ f.answersTo key = true := by
  obtain ⟨i, hi, hf⟩ := Option.bind_eq_some_iff.mp hf
  obtain ⟨g, hg, hanswers⟩ := FieldTable.getElem?_of_position? hi
  obtain rfl : f = g := Option.some.inj (hf.symm.trans hg)
  exact ⟨List.mem_of_getElem? hf, hanswers⟩

/-- A key that resolves to nothing is the name or an alias of no field. -/
theorem not_answersTo_of_field?_eq_none (hnone : h.field? s key = none) {f : Field Handle}
    (hf : f ∈ h.fields s) : ¬ f.answersTo key = true := by
  intro hanswers
  obtain ⟨i, hi⟩ := List.getElem?_of_mem hf
  obtain ⟨j, hj⟩ := FieldTable.exists_position? hi hanswers
  obtain ⟨g, hg, -⟩ := FieldTable.getElem?_of_position? hj
  have hsome : h.field? s key = some g := Option.bind_eq_some_iff.mpr ⟨j, hj, hg⟩
  rw [hnone] at hsome
  cases hsome

/-- **What is accepted is what can be derived.** Whatever cycles a heap has, there is no endless
descent from one type and value to another, and a type accepts a value exactly if that can be
derived by the rules. A key resolves to some field that has it as its name or as an alias, unless
there is none. The forms of texts are the same in characters and in bytes. -/
theorem accepts_iff_derivable (h : Heap) :
    WellFounded h.Consults ∧
    (∀ t v, h.accepts t v = true ↔ h.Valid t v) ∧
    (∀ s key,
      (∀ f, h.field? s key = some f → f ∈ h.fields s ∧ (f.name = key ∨ key ∈ f.aliases)) ∧
      (h.field? s key = none → ∀ f ∈ h.fields s, ¬ (f.name = key ∨ key ∈ f.aliases))) ∧
    ∀ text, isIntegerText text = isIntegerUtf8 text.toUTF8.data.toList ∧
      isUuidText text = isUuidUtf8 text.toUTF8.data.toList := by
  refine ⟨wellFounded_consults h, fun t v => ⟨valid_of_accepts, accepts_of_valid⟩, ?_, ?_⟩
  · intro s key
    simp only [← Field.answersTo_iff]
    exact ⟨fun f => answersTo_of_field?, fun hnone f => not_answersTo_of_field?_eq_none hnone⟩
  · intro text
    exact ⟨isIntegerText_eq_utf8 text, isUuidText_eq_utf8 text⟩

/-- A schema that contains nothing but itself, without and with a choice in between. -/
def selfContained : Heap :=
  ⟨#[⟨.empty, .indexed [⟨"self", .record ⟨0⟩, none, .empty, false⟩,
    ⟨"maybe", .choice [.choice [.record ⟨0⟩]], none, .ofList ["m"], false⟩], none, none, none⟩]⟩

/-- A derivation ends with an empty map, or not at all. -/
theorem derivable_selfContained :
    selfContained.Valid (.record ⟨0⟩) (.map [("m", .map []), ("self", .map [("self", .map [])])]) ∧
    ¬ selfContained.Valid (.record ⟨0⟩) (.map [("m", .map [("self", .array [])])]) ∧
    ∃ f, selfContained.field? ⟨0⟩ "m" = some f ∧
      f ∈ selfContained.fields ⟨0⟩ ∧ (f.name = "m" ∨ "m" ∈ f.aliases) := by
  obtain ⟨-, hderivable, hresolves, -⟩ := accepts_iff_derivable selfContained
  refine ⟨?_, ?_, ?_⟩
  · rw [← hderivable]
    cbv
  · have hrefused : selfContained.accepts (.record ⟨0⟩) (.map [("m", .map [("self", .array [])])]) =
        false := by cbv
    rw [← hderivable, hrefused]
    exact Bool.false_ne_true
  · have hfield : selfContained.field? ⟨0⟩ "m" =
        some ⟨"maybe", .choice [.choice [.record ⟨0⟩]], none, .ofList ["m"], false⟩ := by cbv
    exact ⟨_, hfield, (hresolves ⟨0⟩ "m").1 _ hfield⟩

end Heap

end SchemaGraph
