import Mathlib
import SchemaGraph.Proofs.Reachable
import SchemaGraph.Proofs.Repetition

/-!
# Taking fields out and renaming them

A field is taken out, or given a new name, by its name; an alias does not count. Where the field
stands is read off an index, and whether the edited list is valid is found out by a walk through all
of it, or not looked at. What comes of it can be told from the list of fields alone, because no name
or alias occurs twice in a table that can be reached: then the index gives the one field that has
the name, the rest has no repetition either, and a new name that is taken is the only text that
occurs twice after the change.

* `FieldTable.WellFormed.exists_identifiers_set`: the names and aliases around the name of a field.
* `FieldTable.WellFormed.position?_eraseIdx`: where texts are found after a field was taken out.
* `FieldTable.WellFormed.rename_of_taken`, `FieldTable.WellFormed.rename_of_free`,
  `FieldTable.WellFormed.rename_back`: what a new name leads to.
* `Workspace.Reachable.removeField?_outcome`, `Workspace.Reachable.renameField_outcome`: both for
  the schemas of a workspace.
-/

namespace SchemaGraph

namespace FieldTable

variable {ρ : Type} {t u : FieldTable ρ} {fields : List (Field ρ)} {f : Field ρ} {i : Nat}
  {name newName text : String}

theorem mem_identifiers_iff :
    text ∈ identifiers fields ↔ ∃ g ∈ fields, g.answersTo text = true := by
  simp only [identifiers, List.mem_flatMap, Field.answersTo, List.contains_iff_mem]

theorem nameIndex_eq_none_of_absent (habsent : ∀ f ∈ t.fields, f.name ≠ name) :
    t.nameIndex[name]? = none := by
  cases hi : t.nameIndex[name]? with
  | none => rfl
  | some i =>
    obtain ⟨f, hf, hname⟩ := getElem?_of_nameIndex hi
    exact absurd hname (habsent f (List.mem_of_getElem? hf))

theorem WellFormed.nameIndex_eq (ht : t.WellFormed) (hf : t.fields[i]? = some f) :
    t.nameIndex[f.name]? = some i := by
  obtain ⟨j, hj⟩ := exists_nameIndex hf
  obtain ⟨g, hg, hname⟩ := getElem?_of_nameIndex hj
  have hfa : f.answersTo f.name = true := Field.answersTo_iff.mpr (.inl rfl)
  have hga : g.answersTo f.name = true := Field.answersTo_iff.mpr (.inl hname)
  rw [hj, position_unique ht.nodup_identifiers hf hg hfa hga]

theorem ne_of_answersTo {g : Field ρ} {j : Nat} (hf : fields[i]? = some f)
    (hother : f.answersTo text = false) (hg : fields[j]? = some g)
    (ha : g.answersTo text = true) : j ≠ i := by
  rintro rfl
  obtain rfl : f = g := Option.some.inj (hf.symm.trans hg)
  rw [ha] at hother
  cases hother

/-! ## A field taken out -/

/-- Where an element of a list stands after the one at a position was taken out. -/
def shifted (i j : Nat) : Nat :=
  if j < i then j else j - 1

theorem getElem?_eraseIdx_iff {l : List (Field ρ)} {k : Nat} :
    (l.eraseIdx i)[k]? = some f ↔ ∃ j, j ≠ i ∧ shifted i j = k ∧ l[j]? = some f := by
  rw [List.getElem?_eraseIdx]
  unfold shifted
  constructor
  · intro hf
    split at hf
    next hlt => exact ⟨k, by omega, if_pos hlt, hf⟩
    next hge => exact ⟨k + 1, by omega, if_neg (by omega), hf⟩
  · rintro ⟨j, hji, rfl, hf⟩
    by_cases hlt : j < i
    · rw [if_pos hlt, if_pos hlt, hf]
    · have hback : j - 1 + 1 = j := by omega
      rw [if_neg hlt, if_neg (by omega), hback, hf]

theorem remove?_of_absent (habsent : ∀ f ∈ t.fields, f.name ≠ name) : t.remove? name = none := by
  unfold remove?
  rw [nameIndex_eq_none_of_absent habsent]
  rfl

theorem WellFormed.remove?_eq (ht : t.WellFormed) (hf : t.fields[i]? = some f) :
    t.remove? f.name = some (f, indexed (t.fields.eraseIdx i)) :=
  remove?_eq_some_iff.mpr ⟨i, ht.nameIndex_eq hf, hf, rfl⟩

/-- What the field answered to is found no more, since no other field answers to it. -/
theorem WellFormed.byName_eraseIdx_eq_none (ht : t.WellFormed) (hf : t.fields[i]? = some f)
    (ha : f.answersTo text = true) : (indexed (t.fields.eraseIdx i)).byName text = none := by
  have hrest := ht.remove (ht.remove?_eq hf)
  rw [byName_eq_find? hrest.nodup_identifiers, List.find?_eq_none]
  intro g hg hb
  obtain ⟨k, hk⟩ := List.mem_iff_getElem?.mp hg
  obtain ⟨j, hji, -, hj⟩ := getElem?_eraseIdx_iff.mp hk
  exact hji (position_unique ht.nodup_identifiers hj hf hb ha)

/-- All other texts are found where they were, or one position before that behind the gap. -/
theorem WellFormed.position?_eraseIdx (ht : t.WellFormed) (hf : t.fields[i]? = some f)
    (hother : f.answersTo text = false) :
    (indexed (t.fields.eraseIdx i)).position? text = (t.position? text).map (shifted i) := by
  have hrest := ht.remove (ht.remove?_eq hf)
  ext k
  rw [position?_eq_some_iff hrest.nodup_identifiers, Option.map_eq_some_iff, fields_indexed]
  simp only [position?_eq_some_iff ht.nodup_identifiers, getElem?_eraseIdx_iff]
  constructor
  · rintro ⟨g, ⟨j, -, hk, hg⟩, hb⟩
    exact ⟨j, ⟨g, hg, hb⟩, hk⟩
  · rintro ⟨j, ⟨g, hg, hb⟩, hk⟩
    exact ⟨g, ⟨j, ne_of_answersTo hf hother hg hb, hk, hg⟩, hb⟩

theorem WellFormed.byName_eraseIdx (ht : t.WellFormed) (hf : t.fields[i]? = some f)
    (hother : f.answersTo text = false) :
    (indexed (t.fields.eraseIdx i)).byName text = t.byName text := by
  unfold byName
  rw [ht.position?_eraseIdx hf hother]
  cases hj : t.position? text with
  | none => rfl
  | some j =>
    obtain ⟨g, hg, hb⟩ := getElem?_of_position? hj
    have hji := ne_of_answersTo hf hother hg hb
    exact (getElem?_eraseIdx_iff.mpr ⟨j, hji, rfl, hg⟩).trans hg.symm

/-! ## A field with a new name -/

theorem mem_append_of_mem_middle {before after : List String} (h : text ∈ before ++ name :: after)
    (hother : text ≠ name) : text ∈ before ++ after := by
  rw [List.mem_append, List.mem_cons] at h
  rw [List.mem_append]
  exact h.imp_right fun h => h.resolve_left hother

/-- The names and aliases of a table around the name of one field: they have no repetition, and a
new name takes the place of the old one. -/
theorem WellFormed.exists_identifiers_set (ht : t.WellFormed) (hf : t.fields[i]? = some f) :
    ∃ before after,
      (∀ name, identifiers (t.fields.set i { f with name }) = before ++ name :: after) ∧
      (before ++ f.name :: after).Nodup ∧
      ∀ text, text ∈ before ++ f.name :: after ↔ ∃ g ∈ t.fields, g.answersTo text = true := by
  obtain ⟨before, after, happend⟩ := FieldTable.exists_identifiers_set hf
  have hold : identifiers t.fields = before ++ f.name :: after := by
    rw [← happend, set_name_self hf]
  refine ⟨before, after, happend, ?_, ?_⟩
  · rw [← hold]
    exact ht.nodup_identifiers
  · intro text
    rw [← hold]
    exact mem_identifiers_iff

theorem rename_of_absent (habsent : ∀ f ∈ t.fields, f.name ≠ name) :
    t.rename name newName = .ok none := by
  unfold rename
  rw [nameIndex_eq_none_of_absent habsent]

theorem WellFormed.rename_empty (ht : t.WellFormed) (hf : t.fields[i]? = some f) :
    t.rename f.name "" = .error .emptyName := by
  unfold FieldTable.rename
  rw [ht.nameIndex_eq hf]
  dsimp only
  rw [hf]
  rfl

/-- The new name is the only text that occurs twice in the edited list. -/
theorem WellFormed.rename_of_taken (ht : t.WellFormed) (hf : t.fields[i]? = some f)
    (hname : newName ≠ "") (hother : newName ≠ f.name)
    (htaken : ∃ g ∈ t.fields, g.answersTo newName = true) :
    t.rename f.name newName = .error (.duplicateIdentifier newName) := by
  obtain ⟨before, after, happend, hnodup, hmem⟩ := ht.exists_identifiers_set hf
  have hrest : newName ∈ before ++ after :=
    mem_append_of_mem_middle ((hmem newName).mpr htaken) hother
  have hfirst := firstRepeated_replaced hnodup hrest
  rw [rename_eq_of_nameIndex (ht.nameIndex_eq hf) hf hname, build, checkDistinct, happend, hfirst]
  rfl

theorem WellFormed.rename_of_free (ht : t.WellFormed) (hf : t.fields[i]? = some f)
    (hname : newName ≠ "")
    (hfree : newName ≠ f.name → ∀ g ∈ t.fields, g.answersTo newName = false) :
    t.rename f.name newName = .ok (some (indexed (t.fields.set i { f with name := newName }))) := by
  obtain ⟨before, after, happend, hnodup, hmem⟩ := ht.exists_identifiers_set hf
  obtain ⟨hgone, hrest⟩ := List.nodup_cons.mp (List.nodup_middle.mp hnodup)
  have hnew : newName ∉ before ++ after := by
    by_cases hsame : newName = f.name
    · rw [hsame]
      exact hgone
    · intro hnew
      have hold : newName ∈ before ++ f.name :: after :=
        (List.Sublist.append_left (List.sublist_cons_self _ _) before).subset hnew
      obtain ⟨g, hg, ha⟩ := (hmem newName).mp hold
      rw [hfree hsame g hg] at ha
      cases ha
  have hdistinct : (identifiers (t.fields.set i { f with name := newName })).Nodup := by
    rw [happend]
    exact List.nodup_middle.mpr (List.nodup_cons.mpr ⟨hnew, hrest⟩)
  rw [rename_eq_of_nameIndex (ht.nameIndex_eq hf) hf hname]
  exact bind_eq_ok_iff.mpr ⟨_, build_eq_ok_iff.mpr ⟨hdistinct, rfl⟩, rfl⟩

/-- The old name is free again, so that the field can have it back. -/
theorem WellFormed.rename_back (ht : t.WellFormed) (hf : t.fields[i]? = some f)
    (hrename : t.rename f.name newName =
      .ok (some (indexed (t.fields.set i { f with name := newName })))) :
    (indexed (t.fields.set i { f with name := newName })).rename newName f.name = .ok (some t) := by
  have hrenamed := ht.rename hrename
  have hi : i < t.fields.length := (List.getElem?_eq_some_iff.mp hf).1
  have hfound : (indexed (t.fields.set i { f with name := newName })).fields[i]? =
      some { f with name := newName } := List.getElem?_set_self hi
  have hname : f.name ≠ "" := ht.name_ne_empty f (List.mem_of_getElem? hf)
  have hfree : f.name ≠ newName →
      ∀ g ∈ t.fields.set i { f with name := newName }, g.answersTo f.name = false := by
    intro hother g hg
    obtain ⟨before, after, happend, hnodup, -⟩ := ht.exists_identifiers_set hf
    obtain ⟨hgone, -⟩ := List.nodup_cons.mp (List.nodup_middle.mp hnodup)
    rw [← Bool.not_eq_true]
    intro ha
    have hmem : f.name ∈ before ++ newName :: after := by
      rw [← happend]
      exact mem_identifiers_iff.mpr ⟨g, hg, ha⟩
    exact hgone (mem_append_of_mem_middle hmem hother)
  rw [hrenamed.rename_of_free hfound hname hfree]
  congr 2
  apply ext_fields
  rw [fields_indexed, fields_indexed, List.set_set]
  exact set_name_self hf

end FieldTable

namespace Heap

variable {h : Heap} {s : Handle} {i : Nat} {f : Field Handle}

theorem mem_handles_of_getElem?_fields (hf : (h.fields s)[i]? = some f) : s ∈ h.handles := by
  by_contra outside
  rw [fields_eq_nil outside] at hf
  cases hf

theorem renameField_of_error {name newName : String} {cause : SchemaError}
    (hrename : (h.table s).rename name newName = .error cause) :
    h.renameField s name newName = .error cause := by
  unfold renameField
  rw [hrename]
  rfl

theorem renameField_of_ok {name newName : String} {edited : Option (FieldTable Handle)}
    (hrename : (h.table s).rename name newName = .ok edited) :
    h.renameField s name newName = .ok (edited.map (h.setTable s)) := by
  unfold renameField
  rw [hrename]
  rfl

/-- A table that was put in its place is edited like any other. -/
theorem renameField_setTable (inside : s ∈ h.handles) {table edited : FieldTable Handle}
    {name newName : String} (hrename : table.rename name newName = .ok (some edited)) :
    (h.setTable s table).renameField s name newName = .ok (some (h.setTable s edited)) := by
  have hplaced : ((h.setTable s table).table s).rename name newName = .ok (some edited) := by
    rw [table_setTable_self inside]
    exact hrename
  rw [renameField_of_ok hplaced, Option.map_some, setTable_setTable]

end Heap

namespace Workspace

variable {w : Workspace} {s : Handle} {schema : String}

theorem step_of_execute {c : Command} {reply : Reply} {next : Workspace}
    (h : w.execute c = .ok (reply, next)) : w.step c = (.ok reply, next) := by
  unfold step
  rw [h]

theorem step_of_refused {c : Command} {refusal : Refusal} (h : w.execute c = .error refusal) :
    w.step c = (.error refusal, w) := by
  unfold step
  rw [h]

theorem step_remove (hs : w.schemas[schema]? = some s) (name : String) (target : Option String) :
    w.step (.remove schema name target) =
      match w.heap.removeField? s name with
      | none => (.ok (.field none), w)
      | some (f, heap) => (.ok (.field (some f)), (w.withHeap heap).keepField target f) := by
  have hschema := schema_eq_ok_iff.mpr hs
  cases hremove : w.heap.removeField? s name with
  | none =>
    apply step_of_execute
    refine bind_eq_ok_iff.mpr ⟨s, hschema, ?_⟩
    rw [hremove]
    rfl
  | some removed =>
    apply step_of_execute
    refine bind_eq_ok_iff.mpr ⟨s, hschema, ?_⟩
    rw [hremove]
    rfl

theorem step_rename (hs : w.schemas[schema]? = some s) (name newName : String) :
    w.step (.rename schema name newName) =
      match w.heap.renameField s name newName with
      | .ok none => (.ok (.answer false), w)
      | .ok (some heap) => (.ok (.answer true), w.withHeap heap)
      | .error cause => (.error (.invalid cause), w) := by
  have hschema := schema_eq_ok_iff.mpr hs
  cases hrename : w.heap.renameField s name newName with
  | error cause =>
    apply step_of_refused
    change (w.schema schema >>= fun s => orRefuse (w.heap.renameField s name newName) >>= _) = _
    rw [hschema]
    change (orRefuse (w.heap.renameField s name newName) >>= _) = _
    rw [hrename]
    rfl
  | ok edited =>
    cases edited with
    | none =>
      apply step_of_execute
      refine bind_eq_ok_iff.mpr ⟨s, hschema, ?_⟩
      exact bind_eq_ok_iff.mpr ⟨none, orRefuse_eq_ok_iff.mpr hrename, rfl⟩
    | some heap =>
      apply step_of_execute
      refine bind_eq_ok_iff.mpr ⟨s, hschema, ?_⟩
      exact bind_eq_ok_iff.mpr ⟨some heap, orRefuse_eq_ok_iff.mpr hrename, rfl⟩

/-- **Taking a field out.** In a workspace that can be reached, a schema has no field to take out
if none of its fields has the name. Otherwise the field is given back as it was, the others keep
their order, what the field answered to is found no more, and every other text is found where it
was, one position earlier if that was behind the gap. A command does this under any name of the
schema. -/
theorem Reachable.removeField?_outcome (hw : w.Reachable) (s : Handle) (name : String) :
    ((∀ f ∈ w.heap.fields s, f.name ≠ name) → w.heap.removeField? s name = none) ∧
    (∀ i f, (w.heap.fields s)[i]? = some f → f.name = name →
      ∃ heap, w.heap.removeField? s name = some (f, heap) ∧
        heap.fields s = (w.heap.fields s).eraseIdx i ∧
        (∀ text, f.answersTo text = true → heap.field? s text = none) ∧
        (∀ text, f.answersTo text = false →
          heap.field? s text = w.heap.field? s text ∧
          (heap.table s).position? text =
            ((w.heap.table s).position? text).map (FieldTable.shifted i)) ∧
        ∀ other, other ≠ s → heap.table other = w.heap.table other) ∧
    ∀ schema target, w.schemas[schema]? = some s →
      w.step (.remove schema name target) =
        match w.heap.removeField? s name with
        | none => (.ok (.field none), w)
        | some (f, heap) => (.ok (.field (some f)), (w.withHeap heap).keepField target f) := by
  have htable := hw.wellFormed.table s
  refine ⟨?_, ?_, ?_⟩
  · intro habsent
    unfold Heap.removeField?
    rw [FieldTable.remove?_of_absent habsent]
    rfl
  · rintro i f hf rfl
    have inside := Heap.mem_handles_of_getElem?_fields hf
    have hremove := htable.remove?_eq hf
    have hnew := Heap.table_setTable_self inside (.indexed ((w.heap.fields s).eraseIdx i))
    refine ⟨w.heap.setTable s (.indexed ((w.heap.fields s).eraseIdx i)), ?_, ?_, ?_, ?_, ?_⟩
    · unfold Heap.removeField?
      rw [hremove]
      rfl
    · exact congrArg FieldTable.fields hnew
    · intro text ha
      rw [Heap.field?, hnew]
      exact htable.byName_eraseIdx_eq_none hf ha
    · intro text hother
      rw [Heap.field?, hnew]
      exact ⟨htable.byName_eraseIdx hf hother, htable.position?_eraseIdx hf hother⟩
    · intro other hother
      exact Heap.table_setTable_of_ne _ hother
  · intro schema target hs
    exact step_remove hs name target

/-- A field of a list that leads on in it. -/
def linkField : Field Handle :=
  ⟨"next", .record ⟨0⟩, none, .ofList ["n", "succ"], true⟩

/-- An entry, the field that leads on, and a remark. -/
def listFields : List (Field Handle) :=
  [⟨"entry", .basic .int, none, .ofList ["e"], false⟩, linkField,
    ⟨"remark", .basic .string, none, .ofList ["r"], true⟩]

/-- A list whose entries lead on to the list itself. -/
def chained : Workspace :=
  empty.run
    [.create "list" .empty,
      .install "list"
        [.built ⟨"entry", .basic .int, none, .ofList ["e"], false⟩,
          .built ⟨"next", .record "list", none, .ofList ["n", "succ"], true⟩,
          .built ⟨"remark", .basic .string, none, .ofList ["r"], true⟩]]

/-- The field in the middle is taken out, but not by one of its aliases. -/
theorem removeField?_chained :
    chained.Reachable ∧ chained.heap.fields ⟨0⟩ = listFields ∧
    chained.heap.removeField? ⟨0⟩ "succ" = none ∧
    ∃ heap, chained.heap.removeField? ⟨0⟩ "next" = some (linkField, heap) ∧
      heap.fields ⟨0⟩ = listFields.eraseIdx 1 ∧ heap.field? ⟨0⟩ "succ" = none ∧
      heap.field? ⟨0⟩ "r" = chained.heap.field? ⟨0⟩ "r" ∧
      chained.step (.remove "list" "next" (some "kept")) =
        (.ok (.field (some linkField)),
          (chained.withHeap heap).keepField (some "kept") linkField) := by
  have reachable : chained.Reachable := ⟨_, rfl⟩
  have hfields : chained.heap.fields ⟨0⟩ = listFields := by cbv
  have hfound : (chained.heap.fields ⟨0⟩)[1]? = some linkField := by
    rw [hfields]
    rfl
  have habsent : ∀ f ∈ chained.heap.fields ⟨0⟩, f.name ≠ "succ" := by
    rw [hfields]
    decide
  obtain ⟨hnone, -, -⟩ := reachable.removeField?_outcome ⟨0⟩ "succ"
  obtain ⟨-, hsome, hstep⟩ := reachable.removeField?_outcome ⟨0⟩ "next"
  obtain ⟨heap, hremove, hrest, hgone, hkept, -⟩ := hsome 1 linkField hfound rfl
  rw [hfields] at hrest
  have hcommand := hstep "list" (some "kept") (by cbv)
  rw [hremove] at hcommand
  exact ⟨reachable, hfields, hnone habsent, heap, hremove, hrest, hgone "succ" (by decide),
    (hkept "r" (by decide)).1, hcommand⟩

/-- **Giving a field a new name.** In a workspace that can be reached, nothing is renamed if no
field of the schema has the name. Otherwise the new name is refused if it is empty, and reported if
it is another name than the old one and some field of the schema answers to it, be it the renamed
one. In all other cases the field gets it, nothing else is changed, and the way back is open. A
command does this under any name of the schema. -/
theorem Reachable.renameField_outcome (hw : w.Reachable) (s : Handle) (name newName : String) :
    ((∀ f ∈ w.heap.fields s, f.name ≠ name) → w.heap.renameField s name newName = .ok none) ∧
    (∀ i f, (w.heap.fields s)[i]? = some f → f.name = name →
      (newName = "" → w.heap.renameField s name newName = .error .emptyName) ∧
      (newName ≠ "" → newName ≠ name → (∃ g ∈ w.heap.fields s, g.answersTo newName = true) →
        w.heap.renameField s name newName = .error (.duplicateIdentifier newName)) ∧
      (newName ≠ "" →
        (newName ≠ name → ∀ g ∈ w.heap.fields s, g.answersTo newName = false) →
        ∃ heap, w.heap.renameField s name newName = .ok (some heap) ∧
          heap.fields s = (w.heap.fields s).set i { f with name := newName } ∧
          (∀ other, other ≠ s → heap.table other = w.heap.table other) ∧
          heap.renameField s newName name = .ok (some w.heap))) ∧
    ∀ schema, w.schemas[schema]? = some s →
      w.step (.rename schema name newName) =
        match w.heap.renameField s name newName with
        | .ok none => (.ok (.answer false), w)
        | .ok (some heap) => (.ok (.answer true), w.withHeap heap)
        | .error cause => (.error (.invalid cause), w) := by
  have htable := hw.wellFormed.table s
  refine ⟨?_, ?_, ?_⟩
  · intro habsent
    exact Heap.renameField_of_ok (FieldTable.rename_of_absent habsent)
  · rintro i f hf rfl
    refine ⟨?_, ?_, ?_⟩
    · rintro rfl
      exact Heap.renameField_of_error (htable.rename_empty hf)
    · intro hname hother htaken
      exact Heap.renameField_of_error (htable.rename_of_taken hf hname hother htaken)
    · intro hname hfree
      have inside := Heap.mem_handles_of_getElem?_fields hf
      have hrename := htable.rename_of_free hf hname hfree
      have hnew := Heap.table_setTable_self inside
        (.indexed ((w.heap.fields s).set i { f with name := newName }))
      refine ⟨_, Heap.renameField_of_ok hrename, ?_, ?_, ?_⟩
      · exact congrArg FieldTable.fields hnew
      · intro other hother
        exact Heap.table_setTable_of_ne _ hother
      · have hback := Heap.renameField_setTable inside (htable.rename_back hf hrename)
        rw [Heap.setTable_table_self] at hback
        exact hback
  · intro schema hs
    exact step_rename hs name newName

/-- The field of a place, under some name, and a label. -/
def placeFields (name : String) : List (Field Handle) :=
  [⟨"label", .basic .string, none, .empty, true⟩,
    ⟨name, .record ⟨0⟩, some (.map [("x", .int 0)]), .ofList ["position"], false⟩]

/-- A place with a default value that its type refuses since the point has lost its field. -/
def emptied : Workspace :=
  empty.run
    [.createWith "point" [.built ⟨"x", .basic .int, none, .empty, true⟩] none .empty,
      .createWith "place"
        [.built ⟨"label", .basic .string, none, .empty, true⟩,
          .built ⟨"at", .record "point", some (.map [("x", .int 0)]), .ofList ["position"], false⟩]
        none .empty,
      .install "point" []]

/-- A name that is only an alias, an empty new name, the field's own alias, the name of another
field, and a new name that is free. -/
theorem renameField_emptied :
    emptied.Reachable ∧ emptied.heap.fields ⟨1⟩ = placeFields "at" ∧
    emptied.heap.accepts (.record ⟨0⟩) (.map [("x", .int 0)]) = false ∧
    emptied.heap.renameField ⟨1⟩ "position" "" = .ok none ∧
    emptied.heap.renameField ⟨1⟩ "at" "" = .error .emptyName ∧
    emptied.heap.renameField ⟨1⟩ "at" "position" = .error (.duplicateIdentifier "position") ∧
    emptied.heap.renameField ⟨1⟩ "at" "label" = .error (.duplicateIdentifier "label") ∧
    emptied.step (.rename "place" "at" "label") =
      (.error (.invalid (.duplicateIdentifier "label")), emptied) ∧
    ∃ heap, emptied.heap.renameField ⟨1⟩ "at" "where" = .ok (some heap) ∧
      heap.fields ⟨1⟩ = placeFields "where" ∧
      heap.renameField ⟨1⟩ "where" "at" = .ok (some emptied.heap) := by
  have reachable : emptied.Reachable := ⟨_, rfl⟩
  have hfields : emptied.heap.fields ⟨1⟩ = placeFields "at" := by cbv
  have hfound : (emptied.heap.fields ⟨1⟩)[1]? =
      some ⟨"at", .record ⟨0⟩, some (.map [("x", .int 0)]), .ofList ["position"], false⟩ := by
    rw [hfields]
    rfl
  have outcome := fun name newName => reachable.renameField_outcome ⟨1⟩ name newName
  have habsent : ∀ f ∈ emptied.heap.fields ⟨1⟩, f.name ≠ "position" := by
    rw [hfields]
    decide
  have hown : ∃ g ∈ emptied.heap.fields ⟨1⟩, g.answersTo "position" = true := by
    rw [hfields]
    decide
  have hother : ∃ g ∈ emptied.heap.fields ⟨1⟩, g.answersTo "label" = true := by
    rw [hfields]
    decide
  have hfree : ∀ g ∈ emptied.heap.fields ⟨1⟩, g.answersTo "where" = false := by
    rw [hfields]
    decide
  have hempty := ((outcome "at" "").2.1 1 _ hfound rfl).1 rfl
  have htaken := ((outcome "at" "position").2.1 1 _ hfound rfl).2.1 (by decide) (by decide) hown
  have hlabel := ((outcome "at" "label").2.1 1 _ hfound rfl).2.1 (by decide) (by decide) hother
  obtain ⟨heap, hrename, hlist, -, hback⟩ :=
    ((outcome "at" "where").2.1 1 _ hfound rfl).2.2 (by decide) fun _ => hfree
  have hcommand := (outcome "at" "label").2.2 "place" (by cbv)
  rw [hlabel] at hcommand
  rw [hfields] at hlist
  exact ⟨reachable, hfields, by cbv, (outcome "position" "").1 habsent, hempty, htaken, hlabel,
    hcommand, heap, hrename, hlist, hback⟩

end Workspace

end SchemaGraph
