import Mathlib
import SchemaGraph.Proofs.LookUp

/-!
# The repetition that is reported

A list of fields is refused if a text occurs twice among its names and aliases. These are looked at
in field order, the name of a field before its aliases, and the aliases in increasing order. So
there are four ways for a text to occur again: two names, two aliases, a name after an alias, and an
alias after a name, which may be the name of the same field. The walk does not tell them apart. It
keeps the texts that it has seen, and stops at the first one that it has seen before.

Whether there is a repetition does not depend on the order of the fields; which one is reported
does. Neither depends on how the aliases of a field were given, since they are a set.

* `RepeatedAt`: a position at which a text occurs again.
* `FieldTable.firstRepeated_eq_some_iff`: the walk finds the text at the first such position.
* `FieldTable.firstRepeated_replaced`: what the walk finds if one text is replaced by another.
* `FieldTable.Judges`: to refuse a list of fields for its first repetition, and for nothing else.
* `Heap.refused_for_first_repetition`: everything that takes a list of fields does so.
-/

namespace SchemaGraph

/-- The text at a position of a list occurs at an earlier position as well. -/
def RepeatedAt (texts : List String) (i : Nat) : Prop :=
  ∃ j < i, ∃ a, texts[j]? = some a ∧ texts[i]? = some a

variable {ρ : Type} {texts before after : List String} {a b : String} {i k : Nat}

theorem repeatedAt_iff_mem_take (h : texts[i]? = some a) :
    RepeatedAt texts i ↔ a ∈ texts.take i := by
  rw [List.mem_iff_getElem?]
  constructor
  · rintro ⟨j, hj, b, hb, hi⟩
    obtain rfl : a = b := Option.some.inj (h.symm.trans hi)
    exact ⟨j, by rw [List.getElem?_take_of_lt hj, hb]⟩
  · rintro ⟨j, hj⟩
    have hji : j < i := by
      by_contra hle
      rw [List.getElem?_take_eq_none (Nat.not_lt.mp hle)] at hj
      cases hj
    rw [List.getElem?_take_of_lt hji] at hj
    exact ⟨j, hji, a, hj, h⟩

theorem repeatedAt_take : RepeatedAt (texts.take i) k ↔ k < i ∧ RepeatedAt texts k := by
  constructor
  · rintro ⟨j, hj, a, ha, hk⟩
    have hki : k < i := by
      by_contra hle
      rw [List.getElem?_take_eq_none (Nat.not_lt.mp hle)] at hk
      cases hk
    rw [List.getElem?_take_of_lt (hj.trans hki)] at ha
    rw [List.getElem?_take_of_lt hki] at hk
    exact ⟨hki, j, hj, a, ha, hk⟩
  · rintro ⟨hki, j, hj, a, ha, hk⟩
    refine ⟨j, hj, a, ?_, ?_⟩
    · rw [List.getElem?_take_of_lt (hj.trans hki), ha]
    · rw [List.getElem?_take_of_lt hki, hk]

theorem nodup_iff_forall_not_repeatedAt : texts.Nodup ↔ ∀ k, ¬ RepeatedAt texts k := by
  rw [List.nodup_iff_getElem?_ne_getElem?]
  constructor
  · rintro hne k ⟨j, hj, a, ha, hk⟩
    have hlength : k < texts.length := (List.getElem?_eq_some_iff.mp hk).1
    exact hne j k hj hlength (ha.trans hk.symm)
  · intro hnone j k hj hlength heq
    have hk : texts[k]? = some texts[k] := List.getElem?_eq_getElem hlength
    exact hnone k ⟨j, hj, _, heq.trans hk, hk⟩

/-- Before the first position at which a text occurs again there is no repetition. -/
theorem isLeast_repeatedAt_iff :
    IsLeast {k | RepeatedAt texts k} i ↔ RepeatedAt texts i ∧ (texts.take i).Nodup := by
  refine and_congr_right fun _ => ?_
  rw [nodup_iff_forall_not_repeatedAt]
  simp only [repeatedAt_take, not_and']
  constructor
  · intro hlower k hk
    exact Nat.not_lt.mpr (hlower hk)
  · intro hnone k hk
    exact Nat.not_lt.mp (hnone k hk)

namespace FieldTable

/-! ## The walk -/

/-- The walk stops at a text that it has seen, and has found nothing before it. The induction goes
along the walk, with any texts seen at its start. -/
theorem firstRepeated_eq_some_iff_exists_append {seen : List String} :
    firstRepeated seen texts = some a ↔
      ∃ before after, texts = before ++ a :: after ∧ firstRepeated seen before = none ∧
        (a ∈ before ∨ a ∈ seen) := by
  induction texts generalizing seen with
  | nil => simp [firstRepeated]
  | cons c rest ih =>
    by_cases hc : c ∈ seen
    · rw [firstRepeated, if_pos hc]
      constructor
      · intro h
        obtain rfl : c = a := Option.some.inj h
        exact ⟨[], rest, rfl, rfl, .inr hc⟩
      · rintro ⟨before, after, happend, hnone, -⟩
        cases before with
        | nil => rw [(List.cons.inj happend).1]
        | cons d before =>
          obtain rfl : c = d := (List.cons.inj happend).1
          rw [firstRepeated, if_pos hc] at hnone
          cases hnone
    · rw [firstRepeated, if_neg hc, ih]
      constructor
      · rintro ⟨before, after, rfl, hnone, hmem⟩
        refine ⟨c :: before, after, rfl, ?_, ?_⟩
        · rw [firstRepeated, if_neg hc, hnone]
        · rw [List.mem_cons, or_comm (a := a = c), or_assoc, ← List.mem_cons]
          exact hmem
      · rintro ⟨before, after, happend, hnone, hmem⟩
        cases before with
        | nil =>
          obtain rfl : c = a := (List.cons.inj happend).1
          exact absurd (hmem.resolve_left List.not_mem_nil) hc
        | cons d before =>
          obtain ⟨rfl, rfl⟩ := List.cons.inj happend
          rw [firstRepeated, if_neg hc] at hnone
          refine ⟨before, after, rfl, hnone, ?_⟩
          rw [List.mem_cons, or_comm (a := a = c), or_assoc, ← List.mem_cons] at hmem
          exact hmem

theorem firstRepeated_nil_eq_none_iff : firstRepeated [] texts = none ↔ texts.Nodup := by
  rw [firstRepeated_eq_none_iff]
  simp

theorem firstRepeated_append (hnodup : before.Nodup) (hmem : a ∈ before) :
    firstRepeated [] (before ++ a :: after) = some a :=
  firstRepeated_eq_some_iff_exists_append.mpr
    ⟨before, after, rfl, firstRepeated_nil_eq_none_iff.mpr hnodup, .inl hmem⟩

/-- From the start the walk finds the text at the smallest position at which one occurs again. -/
theorem firstRepeated_eq_some_iff :
    firstRepeated [] texts = some a ↔
      ∃ i, IsLeast {k | RepeatedAt texts k} i ∧ texts[i]? = some a := by
  constructor
  · intro h
    obtain ⟨before, after, rfl, hnone, hmem⟩ := firstRepeated_eq_some_iff_exists_append.mp h
    have hfound : (before ++ a :: after)[before.length]? = some a := by simp
    refine ⟨before.length, isLeast_repeatedAt_iff.mpr ⟨?_, ?_⟩, hfound⟩
    · rw [repeatedAt_iff_mem_take hfound, List.take_left]
      exact hmem.resolve_right List.not_mem_nil
    · rw [List.take_left]
      exact firstRepeated_nil_eq_none_iff.mp hnone
  · rintro ⟨i, hleast, hfound⟩
    obtain ⟨hrepeated, hnodup⟩ := isLeast_repeatedAt_iff.mp hleast
    have hmem : a ∈ texts.take i := (repeatedAt_iff_mem_take hfound).mp hrepeated
    obtain ⟨hi, rfl⟩ := List.getElem?_eq_some_iff.mp hfound
    have happend : texts = texts.take i ++ texts[i] :: texts.drop (i + 1) := by simp
    exact (congrArg (firstRepeated []) happend).trans (firstRepeated_append hnodup hmem)

/-- If one text of a list without repetitions is replaced by another text of the list, then that
text is found, whether it stood before or behind the replaced one. -/
theorem firstRepeated_replaced (hnodup : (before ++ a :: after).Nodup)
    (hmem : b ∈ before ++ after) : firstRepeated [] (before ++ b :: after) = some b := by
  by_cases hb : b ∈ before
  · exact firstRepeated_append (hnodup.sublist (List.sublist_append_left before _)) hb
  · have hb : b ∈ after := (List.mem_append.mp hmem).resolve_left hb
    obtain ⟨middle, rest, rfl⟩ := List.append_of_mem hb
    have hsub : (before ++ (middle ++ [b])).Sublist (before ++ a :: (middle ++ b :: rest)) := by
      refine .append_left (.cons a (.append_left (.cons_cons b ?_) middle)) before
      exact List.nil_sublist rest
    have hperm : (before ++ (middle ++ [b])).Perm (before ++ b :: middle) :=
      (List.perm_append_singleton b middle).append_left before
    have hmiddle : (before ++ b :: middle).Nodup := hperm.nodup_iff.mp (hnodup.sublist hsub)
    have hmem : b ∈ before ++ b :: middle := List.mem_append_right _ List.mem_cons_self
    have happend := List.append_assoc before (b :: middle) (b :: rest)
    rw [List.cons_append] at happend
    rw [← happend]
    exact firstRepeated_append hmiddle hmem

/-! ## Field lists -/

variable {α β : Type} {fields : List (Field ρ)}

/-- A run on a list of fields succeeds if no name or alias occurs twice, and otherwise names the one
that is the first to occur again. It fails for no other reason. -/
structure Judges (fields : List (Field ρ)) (outcome : Except SchemaError α) : Prop where
  ok_iff : (∃ a, outcome = .ok a) ↔ (identifiers fields).Nodup
  error_iff : ∀ cause, outcome = .error cause ↔
    ∃ i a, IsLeast {k | RepeatedAt (identifiers fields) k} i ∧ (identifiers fields)[i]? = some a ∧
      cause = .duplicateIdentifier a

theorem judges_checkDistinct (fields : List (Field ρ)) : Judges fields (checkDistinct fields) := by
  unfold checkDistinct
  cases hfirst : firstRepeated [] (identifiers fields) with
  | none =>
    have hnodup := firstRepeated_nil_eq_none_iff.mp hfirst
    refine ⟨iff_of_true ⟨(), rfl⟩ hnodup, ?_⟩
    intro cause
    refine iff_of_false nofun ?_
    rintro ⟨i, a, hleast, -⟩
    exact nodup_iff_forall_not_repeatedAt.mp hnodup i hleast.1
  | some a =>
    obtain ⟨i, hleast, hfound⟩ := firstRepeated_eq_some_iff.mp hfirst
    refine ⟨iff_of_false (fun ⟨_, h⟩ => nomatch h) ?_, ?_⟩
    · intro hnodup
      exact nodup_iff_forall_not_repeatedAt.mp hnodup i hleast.1
    · intro cause
      constructor
      · intro h
        exact ⟨i, a, hleast, hfound, (Except.error.inj h).symm⟩
      · rintro ⟨i', a', hleast', hfound', rfl⟩
        obtain rfl := hleast.unique hleast'
        rw [Option.some.inj (hfound.symm.trans hfound')]

/-- What is done with a list that has passed makes no difference. -/
theorem Judges.andThen {outcome : Except SchemaError α} (h : Judges fields outcome)
    (next : α → β) : Judges fields (outcome >>= fun a => .ok (next a)) := by
  constructor
  · rw [← h.ok_iff]
    constructor
    · rintro ⟨b, hb⟩
      obtain ⟨a, ha, -⟩ := bind_eq_ok_iff.mp hb
      exact ⟨a, ha⟩
    · rintro ⟨a, ha⟩
      exact ⟨next a, bind_eq_ok_iff.mpr ⟨a, ha, rfl⟩⟩
  · intro cause
    rw [← h.error_iff]
    cases outcome with
    | ok a => exact iff_of_false nofun nofun
    | error refused =>
      constructor
      · intro hcause
        exact congrArg Except.error (Except.error.inj hcause)
      · intro hcause
        exact congrArg Except.error (Except.error.inj hcause)

theorem judges_build (fields : List (Field ρ)) : Judges fields (build fields) :=
  (judges_checkDistinct fields).andThen fun _ => indexed fields

/-- The names and aliases of a list of fields around the name of one of them. -/
theorem exists_identifiers_set {f : Field ρ} (hf : fields[i]? = some f) :
    ∃ before after, ∀ name,
      identifiers (fields.set i { f with name }) = before ++ name :: after := by
  obtain ⟨hi, rfl⟩ := List.getElem?_eq_some_iff.mp hf
  refine ⟨identifiers (fields.take i),
    fields[i].aliases.toList ++ identifiers (fields.drop (i + 1)), ?_⟩
  intro name
  rw [List.set_eq_take_append_cons_drop, if_pos hi]
  unfold identifiers
  rw [List.flatMap_append, List.flatMap_cons, Field.identifiers, List.cons_append]

theorem set_name_self {f : Field ρ} (hf : fields[i]? = some f) :
    fields.set i { f with name := f.name } = fields := by
  obtain ⟨hi, rfl⟩ := List.getElem?_eq_some_iff.mp hf
  exact List.set_getElem_self hi

theorem rename_eq_of_nameIndex {t : FieldTable ρ} {f : Field ρ} {name newName : String}
    (hi : t.nameIndex[name]? = some i) (hf : t.fields[i]? = some f) (hname : newName ≠ "") :
    t.rename name newName =
      build (t.fields.set i { f with name := newName }) >>= fun u => .ok (some u) := by
  unfold rename
  rw [hi]
  dsimp only
  rw [hf]
  dsimp only
  rw [Field.renamed_eq_ok_iff.mpr ⟨hname, rfl⟩]
  rfl

end FieldTable

/-! ## Given aliases -/

/-- The field with further aliases, added one after another. -/
def Field.withAliases (f : Field ρ) (given : List String) : Field ρ :=
  { f with aliases := given.foldl AliasSet.insert f.aliases }

/-- Neither their order nor how often they are given makes a difference. -/
theorem Field.withAliases_congr {given given' : List String} (h : ∀ a, a ∈ given ↔ a ∈ given')
    (f : Field ρ) : f.withAliases given = f.withAliases given' := by
  have haliases :
      given.foldl AliasSet.insert f.aliases = given'.foldl AliasSet.insert f.aliases := by
    apply AliasSet.ext_mem
    intro a
    rw [AliasSet.mem_foldl_insert, AliasSet.mem_foldl_insert, h]
  rw [withAliases, haliases, withAliases]

theorem zipWith_withAliases_congr {given given' : List (List String)}
    (h : List.Forall₂ (fun l m => ∀ a, a ∈ l ↔ a ∈ m) given given') (fields : List (Field ρ)) :
    fields.zipWith Field.withAliases given = fields.zipWith Field.withAliases given' := by
  induction h generalizing fields with
  | nil => rfl
  | cons head _ ih =>
    cases fields with
    | nil => rfl
    | cons f fields =>
      rw [List.zipWith_cons_cons, List.zipWith_cons_cons, f.withAliases_congr head, ih]

namespace Heap

open FieldTable

/-- **A list of fields is refused for its first repetition.** Making a schema with fields,
installing fields and renaming a field succeed exactly if in the resulting list no name or alias
occurs twice, and otherwise report the one that is the first to occur again. The order of the fields
does not decide whether there is a repetition, and the order in which aliases are given, or how
often, decides nothing. -/
theorem refused_for_first_repetition (fields : List (Field Handle)) :
    Judges fields (build fields) ∧
    (∀ (h : Heap) source id, Judges fields (h.createWith fields source id)) ∧
    (∀ (h : Heap) s, Judges fields (h.install s fields)) ∧
    (∀ (h : Heap) s i f newName, (h.table s).nameIndex[f.name]? = some i →
      (h.fields s)[i]? = some f → newName ≠ "" →
      (h.fields s).set i { f with name := newName } = fields →
      Judges fields (h.renameField s f.name newName)) ∧
    (∀ reordered, fields.Perm reordered →
      ((∃ t, build fields = .ok t) ↔ ∃ t, build reordered = .ok t)) ∧
    ∀ given given', List.Forall₂ (fun l m => ∀ a, a ∈ l ↔ a ∈ m) given given' →
      build (fields.zipWith Field.withAliases given) =
        build (fields.zipWith Field.withAliases given') := by
  have hbuild := judges_build fields
  refine ⟨hbuild, ?_, ?_, ?_, ?_, ?_⟩
  · intro h source id
    exact hbuild.andThen fun table => h.add ⟨id, table, none, none, source⟩
  · intro h s
    exact hbuild.andThen fun table => h.setTable s table
  · rintro h s i f newName hi hf hname rfl
    unfold renameField
    rw [rename_eq_of_nameIndex hi hf hname]
    exact (hbuild.andThen some).andThen fun edited => edited.map (h.setTable s)
  · intro reordered hperm
    rw [hbuild.ok_iff, (judges_build reordered).ok_iff]
    exact (hperm.flatMap_right Field.identifiers).nodup_iff
  · intro given given' hgiven
    rw [zipWith_withAliases_congr hgiven]

/-- An entry that is also found under a key, and a note. -/
def tagFields (note : String) : List (Field Handle) :=
  [⟨"id", .basic .int, none, .ofList ["no", "key"], false⟩,
    ⟨note, .basic .string, none, .ofList ["n"], true⟩]

def tagged : Heap :=
  ⟨#[⟨.empty, .indexed (tagFields "note"), none, none, none⟩]⟩

/-- The note cannot be called like the key. -/
theorem refused_tagged :
    (tagged.table ⟨0⟩).nameIndex["note"]? = some 1 ∧
    tagged.renameField ⟨0⟩ "note" "key" = .error (.duplicateIdentifier "key") ∧
    Judges (tagFields "key") (tagged.renameField ⟨0⟩ "note" "key") ∧
    ((∃ t, build (tagFields "key") = .ok t) ↔ ∃ t, build (tagFields "key").reverse = .ok t) ∧
    build ((tagFields "key").zipWith Field.withAliases [["b", "a", "b"], []]) =
      build ((tagFields "key").zipWith Field.withAliases [["a", "b"], []]) := by
  have hindex : (tagged.table ⟨0⟩).nameIndex["note"]? = some 1 := by cbv
  have hfound : (tagged.fields ⟨0⟩)[1]? =
      some ⟨"note", .basic .string, none, .ofList ["n"], true⟩ := rfl
  have hrefused : tagged.renameField ⟨0⟩ "note" "key" = .error (.duplicateIdentifier "key") := by
    cbv
  obtain ⟨-, -, -, hrename, hreorder, haliases⟩ := refused_for_first_repetition (tagFields "key")
  refine ⟨hindex, hrefused, ?_, ?_, ?_⟩
  · exact hrename tagged ⟨0⟩ 1 _ "key" hindex hfound (by decide) rfl
  · exact hreorder _ (List.reverse_perm _).symm
  · refine haliases _ _ (.cons ?_ (.cons ?_ .nil))
    · simp
    · simp

end Heap

end SchemaGraph
