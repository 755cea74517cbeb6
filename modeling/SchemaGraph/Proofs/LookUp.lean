import Mathlib.Data.List.Flatten
import Mathlib.Data.List.Nodup
import SchemaGraph.Heap.Basic

/-!
# Look-up by name or alias

A field table finds a field through two indices: names first, then aliases. If no name or alias
occurs twice in the table, this is a scan of the fields for the one that answers to the text, and
the order in which the indices are asked does not matter. Uniqueness is what the table of a valid
list starts with; taking a field out keeps it, so the rest need not be looked at again.

* `FieldTable.WellFormed`: no name is empty, and no name or alias occurs twice.
* `FieldTable.position?_eq_findIdx?`, `FieldTable.byName_eq_find?`: look-up is a scan.
* `FieldTable.getElem?_of_nameIndex`, `FieldTable.getElem?_of_position?`: a position that an index
  gives is the position of a field.
* `FieldTable.wellFormed_of_build`, `FieldTable.WellFormed.remove`, `FieldTable.WellFormed.rename`:
  the ways in which tables come about.
-/

namespace SchemaGraph

variable {ρ : Type}

/-! ## Successful runs -/

theorem bind_eq_ok_iff {ε α β : Type} {x : Except ε α} {next : α → Except ε β} {b : β} :
    x >>= next = .ok b ↔ ∃ a, x = .ok a ∧ next a = .ok b := by
  cases x with
  | error e =>
    constructor
    · intro h
      cases h
    · rintro ⟨a, ha, -⟩
      cases ha
  | ok a =>
    constructor
    · intro h
      exact ⟨a, rfl, h⟩
    · rintro ⟨a', ha, h⟩
      cases ha
      exact h

theorem map_eq_ok_iff {ε α β : Type} {x : Except ε α} {f : α → β} {b : β} :
    f <$> x = .ok b ↔ ∃ a, x = .ok a ∧ f a = b := by
  cases x with
  | error e =>
    constructor
    · intro h
      cases h
    · rintro ⟨a, ha, -⟩
      cases ha
  | ok a =>
    constructor
    · intro h
      exact ⟨a, rfl, Except.ok.inj h⟩
    · rintro ⟨a', ha, rfl⟩
      cases ha
      rfl

namespace Field

theorem checkName_eq_ok_iff {name : String} : checkName name = .ok () ↔ name ≠ "" := by
  unfold checkName
  by_cases hname : name = ""
  · simp [hname]
  · simp [hname, String.isEmpty_iff]

theorem checked_eq_ok_iff {accepts : DataType ρ → Value → Bool} {f g : Field ρ} :
    f.checked accepts = .ok g ↔
      f = g ∧ f.name ≠ "" ∧ ∀ v, f.defaultValue = some v → accepts f.dataType v = true := by
  have hdefault : checkDefault accepts f = .ok () ↔
      ∀ v, f.defaultValue = some v → accepts f.dataType v = true := by
    unfold checkDefault
    cases f.defaultValue with
    | none => simp
    | some v => cases haccepts : accepts f.dataType v <;> simp [haccepts]
  unfold checked
  constructor
  · intro h
    obtain ⟨⟨⟩, hname, h⟩ := bind_eq_ok_iff.mp h
    obtain ⟨⟨⟩, hvalue, h⟩ := bind_eq_ok_iff.mp h
    exact ⟨Except.ok.inj h, checkName_eq_ok_iff.mp hname, hdefault.mp hvalue⟩
  · rintro ⟨rfl, hname, hvalue⟩
    refine bind_eq_ok_iff.mpr ⟨(), checkName_eq_ok_iff.mpr hname, ?_⟩
    exact bind_eq_ok_iff.mpr ⟨(), hdefault.mpr hvalue, rfl⟩

theorem renamed_eq_ok_iff {f g : Field ρ} {name : String} :
    f.renamed name = .ok g ↔ name ≠ "" ∧ g = { f with name } := by
  unfold renamed
  rw [bind_eq_ok_iff]
  constructor
  · rintro ⟨⟨⟩, hname, h⟩
    exact ⟨checkName_eq_ok_iff.mp hname, (Except.ok.inj h).symm⟩
  · rintro ⟨hname, rfl⟩
    exact ⟨(), checkName_eq_ok_iff.mpr hname, rfl⟩

end Field

/-! ## Entries of the indices -/

theorem mem_of_getElem?_ofList {entries : List (String × Nat)} {key : String} {i : Nat}
    (h : (Std.TreeMap.ofList entries)[key]? = some i) : (key, i) ∈ entries := by
  rw [Std.TreeMap.ofList_eq_insertMany_empty, Std.TreeMap.getElem?_insertMany_list,
    Std.TreeMap.getElem?_emptyc, Option.or_none, List.findSomeRev?_eq_findSome?_reverse] at h
  obtain ⟨⟨k, j⟩, hmem, hj⟩ := List.exists_of_findSome?_eq_some h
  have hkj : k = key ∧ j = i := by simpa using hj
  obtain ⟨rfl, rfl⟩ := hkj
  exact List.mem_reverse.mp hmem

theorem exists_getElem?_ofList {entries : List (String × Nat)} {key : String} {i : Nat}
    (h : (key, i) ∈ entries) : ∃ j, (Std.TreeMap.ofList entries)[key]? = some j := by
  apply Option.isSome_iff_exists.mp
  rw [Std.TreeMap.isSome_getElem?_iff_mem, Std.TreeMap.mem_ofList]
  exact List.contains_iff_mem.mpr (List.mem_map_of_mem h)

theorem mem_nameEntries {fields : List (Field ρ)} {text : String} {i : Nat} :
    (text, i) ∈ nameEntries fields ↔ ∃ f, fields[i]? = some f ∧ f.name = text := by
  unfold nameEntries
  constructor
  · intro h
    obtain ⟨⟨f, j⟩, hmem, heq⟩ := List.mem_map.mp h
    obtain ⟨rfl, rfl⟩ := Prod.mk.inj heq
    exact ⟨f, List.mem_zipIdx_iff_getElem?.mp hmem, rfl⟩
  · rintro ⟨f, hf, rfl⟩
    exact List.mem_map.mpr ⟨(f, i), List.mem_zipIdx_iff_getElem?.mpr hf, rfl⟩

theorem mem_aliasEntries {fields : List (Field ρ)} {text : String} {i : Nat} :
    (text, i) ∈ aliasEntries fields ↔ ∃ f, fields[i]? = some f ∧ text ∈ f.aliases := by
  unfold aliasEntries
  constructor
  · intro h
    obtain ⟨⟨f, j⟩, hmem, h⟩ := List.mem_flatMap.mp h
    obtain ⟨a, ha, heq⟩ := List.mem_map.mp h
    obtain ⟨rfl, rfl⟩ := Prod.mk.inj heq
    exact ⟨f, List.mem_zipIdx_iff_getElem?.mp hmem, ha⟩
  · rintro ⟨f, hf, ha⟩
    refine List.mem_flatMap.mpr ⟨(f, i), List.mem_zipIdx_iff_getElem?.mpr hf, ?_⟩
    exact List.mem_map.mpr ⟨text, ha, rfl⟩

theorem Field.answersTo_iff {f : Field ρ} {text : String} :
    f.answersTo text = true ↔ f.name = text ∨ text ∈ f.aliases := by
  rw [Field.answersTo, List.contains_iff_mem, Field.identifiers, List.mem_cons, eq_comm,
    AliasSet.mem_toList]

namespace FieldTable

variable {t : FieldTable ρ} {text : String} {i : Nat}

theorem getElem?_of_nameIndex (h : t.nameIndex[text]? = some i) :
    ∃ f, t.fields[i]? = some f ∧ f.name = text := by
  rw [t.nameIndex_eq] at h
  exact mem_nameEntries.mp (mem_of_getElem?_ofList h)

theorem getElem?_of_aliasIndex (h : t.aliasIndex[text]? = some i) :
    ∃ f, t.fields[i]? = some f ∧ text ∈ f.aliases := by
  rw [t.aliasIndex_eq] at h
  exact mem_aliasEntries.mp (mem_of_getElem?_ofList h)

theorem exists_nameIndex {f : Field ρ} (hf : t.fields[i]? = some f) :
    ∃ j, t.nameIndex[f.name]? = some j := by
  rw [t.nameIndex_eq]
  exact exists_getElem?_ofList (mem_nameEntries.mpr ⟨f, hf, rfl⟩)

theorem exists_aliasIndex {f : Field ρ} (hf : t.fields[i]? = some f) (ha : text ∈ f.aliases) :
    ∃ j, t.aliasIndex[text]? = some j := by
  rw [t.aliasIndex_eq]
  exact exists_getElem?_ofList (mem_aliasEntries.mpr ⟨f, hf, ha⟩)

theorem position?_eq_or (t : FieldTable ρ) (text : String) :
    t.position? text = (t.nameIndex[text]?).or t.aliasIndex[text]? := by
  unfold position?
  rw [Option.orElse_eq_orElse, Option.orElse_eq_or]

/-- A position that the indices give is the position of a field that answers to the text. -/
theorem getElem?_of_position? (h : t.position? text = some i) :
    ∃ f, t.fields[i]? = some f ∧ f.answersTo text = true := by
  rw [position?_eq_or] at h
  rcases Option.or_eq_some_iff.mp h with h | ⟨-, h⟩
  · obtain ⟨f, hf, hname⟩ := getElem?_of_nameIndex h
    exact ⟨f, hf, Field.answersTo_iff.mpr (.inl hname)⟩
  · obtain ⟨f, hf, ha⟩ := getElem?_of_aliasIndex h
    exact ⟨f, hf, Field.answersTo_iff.mpr (.inr ha)⟩

/-- If a field answers to a text, then the indices give some position for it. -/
theorem exists_position? {f : Field ρ} (hf : t.fields[i]? = some f)
    (ha : f.answersTo text = true) : ∃ j, t.position? text = some j := by
  rw [position?_eq_or]
  cases hn : t.nameIndex[text]? with
  | some j => exact ⟨j, rfl⟩
  | none =>
    rw [Option.none_or]
    rcases Field.answersTo_iff.mp ha with rfl | ha
    · obtain ⟨j, hj⟩ := exists_nameIndex hf
      rw [hn] at hj
      cases hj
    · exact exists_aliasIndex hf ha

/-! ## Tables without repetitions -/

/-- No field has an empty name, and no name or alias occurs twice. -/
structure WellFormed (t : FieldTable ρ) : Prop where
  name_ne_empty : ∀ f ∈ t.fields, f.name ≠ ""
  nodup_identifiers : (identifiers t.fields).Nodup

/-- Without repetitions only one field answers to a text. -/
theorem position_unique {fields : List (Field ρ)} (hnodup : (identifiers fields).Nodup)
    {i j : Nat} {f g : Field ρ} (hi : fields[i]? = some f) (hj : fields[j]? = some g)
    (hf : f.answersTo text = true) (hg : g.answersTo text = true) : i = j := by
  have hpairwise := (List.nodup_flatMap.mp hnodup).2
  rw [List.pairwise_iff_getElem] at hpairwise
  have hfmem : text ∈ f.identifiers := List.contains_iff_mem.mp hf
  have hgmem : text ∈ g.identifiers := List.contains_iff_mem.mp hg
  obtain ⟨hilt, rfl⟩ := List.getElem?_eq_some_iff.mp hi
  obtain ⟨hjlt, rfl⟩ := List.getElem?_eq_some_iff.mp hj
  rcases Nat.lt_trichotomy i j with hij | hij | hij
  · exact absurd hgmem (hpairwise i j hilt hjlt hij hfmem)
  · exact hij
  · exact absurd hfmem (hpairwise j i hjlt hilt hij hgmem)

theorem position?_eq_some_iff (hnodup : (identifiers t.fields).Nodup) :
    t.position? text = some i ↔ ∃ f, t.fields[i]? = some f ∧ f.answersTo text = true := by
  constructor
  · exact getElem?_of_position?
  · rintro ⟨f, hf, ha⟩
    obtain ⟨j, hj⟩ := exists_position? hf ha
    obtain ⟨g, hg, hb⟩ := getElem?_of_position? hj
    rw [hj, position_unique hnodup hg hf hb ha]

theorem position?_eq_findIdx? (hnodup : (identifiers t.fields).Nodup) (text : String) :
    t.position? text = t.fields.findIdx? fun f => f.answersTo text := by
  ext i
  rw [position?_eq_some_iff hnodup, List.findIdx?_eq_some_iff_getElem]
  constructor
  · rintro ⟨f, hf, ha⟩
    obtain ⟨hi, rfl⟩ := List.getElem?_eq_some_iff.mp hf
    refine ⟨hi, ha, ?_⟩
    intro j hji hb
    have hj : t.fields[j]? = some t.fields[j] := List.getElem?_eq_getElem (Nat.lt_trans hji hi)
    have := position_unique hnodup hj hf hb ha
    omega
  · rintro ⟨hi, ha, -⟩
    exact ⟨t.fields[i], List.getElem?_eq_getElem hi, ha⟩

theorem byName_eq_find? (hnodup : (identifiers t.fields).Nodup) (text : String) :
    t.byName text = t.fields.find? fun f => f.answersTo text := by
  rw [List.find?_eq_bind_findIdx?_getElem?, ← position?_eq_findIdx? hnodup]
  rfl

/-! ## The ways in which tables come about -/

theorem firstRepeated_eq_none_iff {seen texts : List String} :
    firstRepeated seen texts = none ↔ texts.Nodup ∧ ∀ a ∈ texts, a ∉ seen := by
  induction texts generalizing seen with
  | nil => simp [firstRepeated]
  | cons a rest ih =>
    unfold firstRepeated
    by_cases ha : a ∈ seen
    · simp [ha]
    · rw [if_neg ha, ih, List.nodup_cons]
      constructor
      · rintro ⟨hrest, hnew⟩
        refine ⟨⟨fun hmem => hnew a hmem List.mem_cons_self, hrest⟩, ?_⟩
        intro b hb
        rcases List.mem_cons.mp hb with rfl | hb
        · exact ha
        · exact fun hseen => hnew b hb (List.mem_cons_of_mem _ hseen)
      · rintro ⟨⟨hnot, hrest⟩, hnew⟩
        refine ⟨hrest, ?_⟩
        intro b hb hmem
        rcases List.mem_cons.mp hmem with rfl | hmem
        · exact hnot hb
        · exact hnew b (List.mem_cons_of_mem _ hb) hmem

theorem build_eq_ok_iff {fields : List (Field ρ)} :
    build fields = .ok t ↔ (identifiers fields).Nodup ∧ t = indexed fields := by
  unfold build checkDistinct
  cases hfirst : firstRepeated [] (identifiers fields) with
  | none =>
    have hnodup := (firstRepeated_eq_none_iff.mp hfirst).1
    constructor
    · intro h
      exact ⟨hnodup, (Except.ok.inj h).symm⟩
    · rintro ⟨-, rfl⟩
      rfl
  | some a =>
    constructor
    · intro h
      cases h
    · rintro ⟨hnodup, -⟩
      rw [firstRepeated_eq_none_iff.mpr ⟨hnodup, by simp⟩] at hfirst
      cases hfirst

theorem remove?_eq_some_iff {name : String} {f : Field ρ} {u : FieldTable ρ} :
    t.remove? name = some (f, u) ↔
      ∃ i, t.nameIndex[name]? = some i ∧ t.fields[i]? = some f ∧
        u = indexed (t.fields.eraseIdx i) := by
  unfold remove?
  simp only [Option.bind_eq_bind, Option.bind_eq_some_iff, Option.pure_def, Option.some.injEq,
    Prod.mk.injEq]
  constructor
  · rintro ⟨i, hi, g, hg, rfl, rfl⟩
    exact ⟨i, hi, hg, rfl⟩
  · rintro ⟨i, hi, hf, rfl⟩
    exact ⟨i, hi, f, hf, rfl, rfl⟩

theorem wellFormed_empty : (empty : FieldTable ρ).WellFormed where
  name_ne_empty := by simp [empty]
  nodup_identifiers := List.nodup_nil

theorem wellFormed_of_build {fields : List (Field ρ)} (hnames : ∀ f ∈ fields, f.name ≠ "")
    (h : build fields = .ok t) : t.WellFormed := by
  obtain ⟨hnodup, rfl⟩ := build_eq_ok_iff.mp h
  exact ⟨hnames, hnodup⟩

/-- The rest of a table without repetitions has none, so it need not be looked at again. -/
theorem WellFormed.remove {name : String} {f : Field ρ} {u : FieldTable ρ} (ht : t.WellFormed)
    (h : t.remove? name = some (f, u)) : u.WellFormed := by
  obtain ⟨i, -, -, rfl⟩ := remove?_eq_some_iff.mp h
  have hsub := List.eraseIdx_sublist t.fields i
  constructor
  · intro g hg
    exact ht.name_ne_empty g (hsub.subset hg)
  · exact ht.nodup_identifiers.sublist (hsub.flatMap Field.identifiers)

theorem rename_eq_ok_some_iff {name newName : String} {u : FieldTable ρ} :
    t.rename name newName = .ok (some u) ↔
      ∃ i f, t.nameIndex[name]? = some i ∧ t.fields[i]? = some f ∧ newName ≠ "" ∧
        build (t.fields.set i { f with name := newName }) = .ok u := by
  unfold rename
  constructor
  · intro h
    split at h
    next => cases h
    next i hi =>
      split at h
      next => cases h
      next f hf =>
        obtain ⟨g, hg, h⟩ := bind_eq_ok_iff.mp h
        obtain ⟨hname, rfl⟩ := Field.renamed_eq_ok_iff.mp hg
        obtain ⟨u', hu, h⟩ := map_eq_ok_iff.mp h
        obtain rfl : u' = u := Option.some.inj h
        exact ⟨i, f, hi, hf, hname, hu⟩
  · rintro ⟨i, f, hi, hf, hname, hu⟩
    rw [hi]
    dsimp only
    rw [hf]
    refine bind_eq_ok_iff.mpr ⟨_, Field.renamed_eq_ok_iff.mpr ⟨hname, rfl⟩, ?_⟩
    exact map_eq_ok_iff.mpr ⟨u, hu, rfl⟩

theorem WellFormed.rename {name newName : String} {u : FieldTable ρ} (ht : t.WellFormed)
    (h : t.rename name newName = .ok (some u)) : u.WellFormed := by
  obtain ⟨i, f, -, -, hname, hbuild⟩ := rename_eq_ok_some_iff.mp h
  refine wellFormed_of_build ?_ hbuild
  intro g hg
  rcases List.mem_or_eq_of_mem_set hg with hg | rfl
  · exact ht.name_ne_empty g hg
  · exact hname

end FieldTable

end SchemaGraph
