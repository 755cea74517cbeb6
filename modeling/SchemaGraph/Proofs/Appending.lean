import SchemaGraph.Proofs.Mixing
import SchemaGraph.Proofs.Reinstall

/-!
# Fields that are appended

The digest of a list of fields mixes two words for each field into a state. What a word takes the
state to determines the state, so the fields at the end of a list take different states to
different ones: they neither hide a difference that the fields before them made nor bring one about.
In one heap this holds for schemas of all forms, also for those that lead back to themselves, since
a nested schema contributes the same wherever it is referred to.

* `Field.absorbAll_bijective`: the fields of a list can be taken out of a state again.
* `Heap.structuralHash_append_eq_iff`: hashes with and without fields at the end.
* `FieldTable.nodup_identifiers_of_append`: a list that is cut off has no new repetitions.
* `Heap.exists_created_append`, `Heap.exists_installed_append`: the schemas in question can be made.
* `Heap.appended_fields_hide_nothing`: these facts together.
-/

namespace SchemaGraph

variable {ρ : Type}

namespace Field

theorem absorbAll_append (ofReference : ρ → UInt64) (state : UInt64) (p r : List (Field ρ)) :
    absorbAll ofReference state (p ++ r) =
      absorbAll ofReference (absorbAll ofReference state p) r :=
  List.foldl_append

theorem absorbAll_bijective (ofReference : ρ → UInt64) (fields : List (Field ρ)) :
    Function.Bijective fun state => absorbAll ofReference state fields := by
  induction fields with
  | nil => exact Function.bijective_id
  | cons f fields ih =>
    have hname := Fnv.mix_bijective (Fnv.ofString f.name)
    have htype := Fnv.mix_bijective (f.dataType.digest ofReference)
    exact ih.comp (htype.comp hname)

theorem digests_append_eq_iff (ofReference : ρ → UInt64) {p q : List (Field ρ)}
    (r : List (Field ρ)) :
    digests ofReference (p ++ r) = digests ofReference (q ++ r) ↔
      digests ofReference p = digests ofReference q := by
  unfold digests
  rw [absorbAll_append, absorbAll_append]
  exact (absorbAll_bijective ofReference r).injective.eq_iff

end Field

namespace FieldTable

/-- The fields at the end of a list may be cut off without a repetition coming about. -/
theorem nodup_identifiers_of_append {p r : List (Field ρ)} (h : (identifiers (p ++ r)).Nodup) :
    (identifiers p).Nodup := by
  unfold identifiers at h ⊢
  rw [List.flatMap_append] at h
  exact h.of_append_left

end FieldTable

namespace Heap

open FieldTable

variable {h : Heap} {p q r fs : List (Field Handle)} {s : Handle}

theorem structuralHash_append_eq_iff {a b c d : Handle} (ha : h.fields a = p ++ r)
    (hb : h.fields b = q ++ r) (hc : h.fields c = p) (hd : h.fields d = q) :
    h.structuralHash a = h.structuralHash b ↔ h.structuralHash c = h.structuralHash d := by
  unfold structuralHash digestSchema
  rw [ha, hb, hc, hd]
  exact Field.digests_append_eq_iff (h.nestedDigest nestedDepth) r

theorem exists_createWith (h : Heap) (source : Option SourceText) (id : Identifier)
    (hnodup : (identifiers fs).Nodup) :
    ∃ s k, h.createWith fs source id = .ok (s, k) ∧ s ∈ k.handles ∧ k.fields s = fs ∧
      ∀ t ∈ h.handles, t ∈ k.handles ∧ k.fields t = h.fields t := by
  have hbuild : build fs = .ok (indexed fs) := build_eq_ok_iff.mpr ⟨hnodup, rfl⟩
  refine ⟨_, (h.add ⟨id, indexed fs, none, none, source⟩).2, bind_eq_ok_iff.mpr ⟨_, hbuild, rfl⟩,
    mem_handles_add, ?_, ?_⟩
  · rw [fields, table_add, if_pos rfl]
    rfl
  · intro t ht
    refine ⟨mem_handles_add_of_mem _ ht, ?_⟩
    rw [fields, table_add, if_neg (Nat.ne_of_lt (mem_handles.mp ht)), fields]

theorem exists_install (hs : s ∈ h.handles) (hnodup : (identifiers fs).Nodup) :
    ∃ k, h.install s fs = .ok k ∧ k.handles = h.handles ∧ k.fields s = fs ∧
      ∀ t ≠ s, k.fields t = h.fields t := by
  refine ⟨_, install_eq_ok_iff.mpr ⟨hnodup, rfl⟩, handles_update _ _ _, ?_, ?_⟩
  · rw [fields, table_setTable_self hs, fields_indexed]
  · intro t ht
    rw [fields, table_setTable_of_ne _ ht, fields]

/-! ## Schemas that are made -/

section Made

variable (hpr : ∃ t, build (p ++ r) = .ok t) (hqr : ∃ t, build (q ++ r) = .ok t)

include hpr hqr

theorem nodup_identifiers_of_builds :
    ((identifiers (p ++ r)).Nodup ∧ (identifiers (q ++ r)).Nodup) ∧
      (identifiers p).Nodup ∧ (identifiers q).Nodup := by
  obtain ⟨_, hpr⟩ := hpr
  obtain ⟨_, hqr⟩ := hqr
  have hpr := (build_eq_ok_iff.mp hpr).1
  have hqr := (build_eq_ok_iff.mp hqr).1
  exact ⟨⟨hpr, hqr⟩, nodup_identifiers_of_append hpr, nodup_identifiers_of_append hqr⟩

/-- Schemas with the four lists can be made one after another. -/
theorem exists_created_append (h : Heap) (source : Option SourceText) (id : Identifier) :
    ∃ a b c d h₁ h₂ h₃ k,
      h.createWith (p ++ r) source id = .ok (a, h₁) ∧
      h₁.createWith (q ++ r) source id = .ok (b, h₂) ∧
      h₂.createWith p source id = .ok (c, h₃) ∧ h₃.createWith q source id = .ok (d, k) ∧
      (k.structuralHash a = k.structuralHash b ↔ k.structuralHash c = k.structuralHash d) := by
  obtain ⟨⟨hpr, hqr⟩, hp, hq⟩ := nodup_identifiers_of_builds hpr hqr
  obtain ⟨a, h₁, hcreate₁, ha, hfa, -⟩ := h.exists_createWith source id hpr
  obtain ⟨b, h₂, hcreate₂, hb, hfb, hold₂⟩ := h₁.exists_createWith source id hqr
  obtain ⟨c, h₃, hcreate₃, hc, hfc, hold₃⟩ := h₂.exists_createWith source id hp
  obtain ⟨d, k, hcreate₄, -, hfd, hold₄⟩ := h₃.exists_createWith source id hq
  obtain ⟨ha₂, hfa₂⟩ := hold₂ a ha
  obtain ⟨ha₃, hfa₃⟩ := hold₃ a ha₂
  obtain ⟨hb₃, hfb₃⟩ := hold₃ b hb
  have hfa₄ : k.fields a = p ++ r := by rw [(hold₄ a ha₃).2, hfa₃, hfa₂, hfa]
  have hfb₄ : k.fields b = q ++ r := by rw [(hold₄ b hb₃).2, hfb₃, hfb]
  have hfc₄ : k.fields c = p := by rw [(hold₄ c hc).2, hfc]
  exact ⟨a, b, c, d, h₁, h₂, h₃, k, hcreate₁, hcreate₂, hcreate₃, hcreate₄,
    structuralHash_append_eq_iff hfa₄ hfb₄ hfc₄ hfd⟩

/-- The four lists can be installed one after another in schemas that are not the same. -/
theorem exists_installed_append {a b c d : Handle} (hdistinct : [a, b, c, d].Nodup)
    (hinside : ∀ s ∈ [a, b, c, d], s ∈ h.handles) :
    ∃ h₁ h₂ h₃ k,
      h.install a (p ++ r) = .ok h₁ ∧ h₁.install b (q ++ r) = .ok h₂ ∧
      h₂.install c p = .ok h₃ ∧ h₃.install d q = .ok k ∧
      (k.structuralHash a = k.structuralHash b ↔ k.structuralHash c = k.structuralHash d) := by
  obtain ⟨⟨hpr, hqr⟩, hp, hq⟩ := nodup_identifiers_of_builds hpr hqr
  simp only [List.nodup_cons, List.mem_cons, not_or, List.not_mem_nil] at hdistinct
  obtain ⟨⟨hab, hac, had, -⟩, ⟨hbc, hbd, -⟩, ⟨hcd, -⟩, -⟩ := hdistinct
  simp only [List.forall_mem_cons] at hinside
  obtain ⟨ha, hb, hc, hd, -⟩ := hinside
  obtain ⟨h₁, hinstall₁, hsame₁, hfa, -⟩ := exists_install ha hpr
  rw [← hsame₁] at hb hc hd
  obtain ⟨h₂, hinstall₂, hsame₂, hfb, hkept₂⟩ := exists_install hb hqr
  rw [← hsame₂] at hc hd
  obtain ⟨h₃, hinstall₃, hsame₃, hfc, hkept₃⟩ := exists_install hc hp
  rw [← hsame₃] at hd
  obtain ⟨k, hinstall₄, -, hfd, hkept₄⟩ := exists_install hd hq
  have hfa₄ : k.fields a = p ++ r := by rw [hkept₄ a had, hkept₃ a hac, hkept₂ a hab, hfa]
  have hfb₄ : k.fields b = q ++ r := by rw [hkept₄ b hbd, hkept₃ b hbc, hfb]
  have hfc₄ : k.fields c = p := by rw [hkept₄ c hcd, hfc]
  exact ⟨h₁, h₂, h₃, k, hinstall₁, hinstall₂, hinstall₃, hinstall₄,
    structuralHash_append_eq_iff hfa₄ hfb₄ hfc₄ hfd⟩

end Made

/-- **Fields that are appended hide nothing.** Mixing a word in is a bijection of the states. So
schemas with two lists of fields have one hash exactly if they still do with further fields behind
both lists, in every heap that holds schemas with the four lists, however they lead to each other.
If the longer lists are without repetitions, so are the others: schemas with the four lists can be
made, and the lists can be installed in any four schemas. -/
theorem appended_fields_hide_nothing :
    (∀ word, Function.Bijective fun state => Fnv.mix state word) ∧
    (∀ (h : Heap) (p q r : List (Field Handle)) (a b c d : Handle),
      h.fields a = p ++ r → h.fields b = q ++ r → h.fields c = p → h.fields d = q →
      (h.structuralHash a = h.structuralHash b ↔ h.structuralHash c = h.structuralHash d)) ∧
    ∀ (p q r : List (Field Handle)),
      (∃ t, build (p ++ r) = .ok t) → (∃ t, build (q ++ r) = .ok t) →
      (∀ (h : Heap) source id, ∃ a b c d h₁ h₂ h₃ k,
        h.createWith (p ++ r) source id = .ok (a, h₁) ∧
        h₁.createWith (q ++ r) source id = .ok (b, h₂) ∧
        h₂.createWith p source id = .ok (c, h₃) ∧ h₃.createWith q source id = .ok (d, k) ∧
        (k.structuralHash a = k.structuralHash b ↔ k.structuralHash c = k.structuralHash d)) ∧
      ∀ (h : Heap) (a b c d : Handle), [a, b, c, d].Nodup → (∀ s ∈ [a, b, c, d], s ∈ h.handles) →
        ∃ h₁ h₂ h₃ k,
          h.install a (p ++ r) = .ok h₁ ∧ h₁.install b (q ++ r) = .ok h₂ ∧
          h₂.install c p = .ok h₃ ∧ h₃.install d q = .ok k ∧
          (k.structuralHash a = k.structuralHash b ↔ k.structuralHash c = k.structuralHash d) := by
  refine ⟨Fnv.mix_bijective, ?_, ?_⟩
  · intro h p q r a b c d
    exact structuralHash_append_eq_iff
  · intro p q r hpr hqr
    refine ⟨exists_created_append hpr hqr, ?_⟩
    intro h a b c d
    exact exists_installed_append hpr hqr

/-- A size of some type. -/
def measure (type : BasicType) : List (Field Handle) :=
  [⟨"size", .basic type, none, .empty, true⟩]

/-- What comes next. -/
def link (next : Handle) : List (Field Handle) :=
  [⟨"next", .record next, none, .empty, true⟩]

/-- Two schemas that differ in the type of the size, with a link to the first behind it and
without. -/
def measures : Heap :=
  ⟨#[⟨.empty, .indexed (measure .int ++ link ⟨0⟩), none, none, none⟩,
    ⟨.empty, .indexed (measure .long ++ link ⟨0⟩), none, none, none⟩,
    ⟨.empty, .indexed (measure .int), none, none, none⟩,
    ⟨.empty, .indexed (measure .long), none, none, none⟩]⟩

/-- The difference of the sizes shows behind the link. -/
theorem hash_measures :
    measures.fields ⟨0⟩ = measure .int ++ link ⟨0⟩ ∧
    measures.fields ⟨1⟩ = measure .long ++ link ⟨0⟩ ∧
    measures.structuralHash ⟨2⟩ ≠ measures.structuralHash ⟨3⟩ ∧
    measures.structuralHash ⟨0⟩ ≠ measures.structuralHash ⟨1⟩ ∧
    (∃ t, build (measure .int ++ link ⟨0⟩) = .ok t) ∧
    (∃ t, build (measure .long ++ link ⟨0⟩) = .ok t) ∧
    (∃ created, measures.createWith (measure .int ++ link ⟨0⟩) none .empty = .ok created) ∧
    ∃ installed, measures.install ⟨0⟩ (measure .int ++ link ⟨0⟩) = .ok installed := by
  obtain ⟨-, hhash, hmade⟩ := appended_fields_hide_nothing
  have hdiffer : measures.structuralHash ⟨2⟩ ≠ measures.structuralHash ⟨3⟩ := by decide +kernel
  have hint : ∃ t, build (measure .int ++ link ⟨0⟩) = .ok t := ⟨_, rfl⟩
  have hlong : ∃ t, build (measure .long ++ link ⟨0⟩) = .ok t := ⟨_, rfl⟩
  obtain ⟨hcreated, hinstalled⟩ := hmade (measure .int) (measure .long) (link ⟨0⟩) hint hlong
  obtain ⟨a, b, c, d, h₁, h₂, h₃, k, hcreate, -⟩ := hcreated measures none .empty
  obtain ⟨k₁, k₂, k₃, k₄, hinstall, -⟩ :=
    hinstalled measures ⟨0⟩ ⟨1⟩ ⟨2⟩ ⟨3⟩ (by decide) (by decide)
  refine ⟨rfl, rfl, hdiffer, ?_, hint, hlong, ⟨_, hcreate⟩, ⟨_, hinstall⟩⟩
  exact (not_congr (hhash measures (measure .int) (measure .long) (link ⟨0⟩) ⟨0⟩ ⟨1⟩ ⟨2⟩ ⟨3⟩
    rfl rfl rfl rfl)).mpr hdiffer

end Heap

end SchemaGraph
