import SchemaGraph.Acceptance
import SchemaGraph.Proofs.Bisimulation
import SchemaGraph.Proofs.LookUp

/-!
# Bisimilar schemas accept the same values

Which values a type accepts depends on the schemas behind its references only up to bisimilarity.
The rules for records look the keys of a map up; in tables with equal names and aliases at equal
positions a text is found at one position, so the fields that are found are related again.

* `nameEntries_eq_of_related`, `aliasEntries_eq_of_related`: related lists have the same indices.
* `FieldTable.byName_related`: so look-up gives related fields.
* `Heap.accepts_eq_of_related`: related types accept the same values, also from heap to heap.
-/

namespace SchemaGraph

variable {ρ σ : Type} {R : ρ → σ → Prop}

/-! ## Look-up in related tables -/

theorem map_eq_of_forall₂ {α β γ : Type} {S : α → β → Prop} {f : α → γ} {g : β → γ}
    (hfg : ∀ a b, S a b → f a = g b) {as : List α} {bs : List β} (h : List.Forall₂ S as bs) :
    as.map f = bs.map g := by
  rw [← List.forall₂_eq_eq_eq, List.forall₂_map_left_iff, List.forall₂_map_right_iff]
  exact h.imp hfg

section Tables

variable {fs : List (Field ρ)} {gs : List (Field σ)} {t : FieldTable ρ} {u : FieldTable σ}

theorem nameEntries_eq_of_related (h : List.Forall₂ (Field.Related R) fs gs) :
    nameEntries fs = nameEntries gs := by
  have hnames : fs.map Field.name = gs.map Field.name :=
    map_eq_of_forall₂ (fun _ _ related => related.name) h
  have hzip := congrArg List.zipIdx hnames
  rwa [List.zipIdx_map, List.zipIdx_map] at hzip

theorem aliasEntries_eq_of_related (h : List.Forall₂ (Field.Related R) fs gs) :
    aliasEntries fs = aliasEntries gs := by
  have haliases : fs.map Field.aliases = gs.map Field.aliases :=
    map_eq_of_forall₂ (fun _ _ related => related.aliases) h
  have hzip := congrArg List.zipIdx haliases
  rw [List.zipIdx_map, List.zipIdx_map] at hzip
  have := congrArg (List.flatMap fun (s, i) => s.toList.map fun a => (a, i)) hzip
  rwa [List.flatMap_map, List.flatMap_map] at this

theorem FieldTable.identifiers_eq_of_related (h : List.Forall₂ (Field.Related R) fs gs) :
    identifiers fs = identifiers gs := by
  have hidentifiers : fs.map Field.identifiers = gs.map Field.identifiers := by
    refine map_eq_of_forall₂ (fun f g related => ?_) h
    rw [Field.identifiers, related.name, related.aliases, Field.identifiers]
  rw [identifiers, List.flatMap_def, hidentifiers, identifiers, List.flatMap_def]

theorem FieldTable.position?_eq_of_related
    (h : List.Forall₂ (Field.Related R) t.fields u.fields) (text : String) :
    t.position? text = u.position? text := by
  unfold position?
  rw [t.nameIndex_eq, t.aliasIndex_eq, u.nameIndex_eq, u.aliasIndex_eq,
    nameEntries_eq_of_related h, aliasEntries_eq_of_related h]

theorem FieldTable.byName_related (h : List.Forall₂ (Field.Related R) t.fields u.fields)
    (text : String) : Option.Rel (Field.Related R) (t.byName text) (u.byName text) := by
  unfold byName
  rw [position?_eq_of_related h]
  cases u.position? text with
  | none => exact .none
  | some i => exact rel_getElem?_of_forall₂ h i

end Tables

/-! ## Acceptance -/

theorem any_eq_of_forall₂ {α β : Type} {S : α → β → Prop} {p : α → Bool} {q : β → Bool}
    {as : List α} {bs : List β} (h : List.Forall₂ S as bs)
    (hpq : ∀ a ∈ as, ∀ b, S a b → p a = q b) : as.any p = bs.any q := by
  induction h with
  | nil => rfl
  | cons head _ ih =>
    rw [List.any_cons, List.any_cons, hpq _ List.mem_cons_self _ head]
    rw [ih fun a ha => hpq a (List.mem_cons_of_mem _ ha)]

namespace Heap

variable {h k : Heap}

theorem Bisimilar.field?_related {a b : Handle} (hab : Bisimilar h k a b) (text : String) :
    Option.Rel (Field.Related (Bisimilar h k)) (h.field? a text) (k.field? b text) :=
  FieldTable.byName_related hab.fields text

/-- The values that a type accepts are the same up to bisimilarity of its references. -/
theorem accepts_eq_of_related {t u : DataType Handle} (htu : t.Related (Bisimilar h k) u)
    (v : Value) : h.accepts t v = k.accepts u v := by
  -- The induction follows the rules: down in the value, or in the options of a choice.
  fun_induction h.accepts t v generalizing u with
  | case1 b v =>
    cases htu
    rw [accepts_basic]
  | case2 element items ih =>
    cases htu with
    | array helement =>
      rw [Heap.accepts]
      refine List.all_congr rfl ?_
      rintro ⟨item, hmem⟩
      exact ih item hmem helement
  | case3 content =>
    cases htu with
    | array helement =>
      cases helement
      rw [Heap.accepts]
  | case4 value entries ih =>
    cases htu with
    | map hvalue =>
      rw [Heap.accepts]
      refine List.all_congr rfl ?_
      rintro ⟨entry, hmem⟩
      exact ih entry hmem hvalue
  | case5 options v ih =>
    cases htu with
    | choice hoptions =>
      simp only [List.any_subtype, List.unattach_attach]
      rw [accepts_choice]
      have hforall₂ := DataType.relatedAll_iff_forall₂.mp hoptions
      exact any_eq_of_forall₂ hforall₂ fun option hmem _ hoption => ih option hmem hoption
  | case6 s entries ih =>
    cases htu with
    | record hschema =>
      rw [Heap.accepts]
      refine List.all_congr rfl ?_
      rintro ⟨entry, hmem⟩
      have hfound := hschema.field?_related entry.1
      dsimp only
      generalize h.field? s entry.1 = f, k.field? _ entry.1 = g at hfound ⊢
      cases hfound with
      | none => rfl
      | some hfg => exact ih entry hmem _ hfg.dataType
  | case7 t v hbasic hchoice harray hbytes hmap hrecord =>
    -- No rule applies to the one type, so none applies to the other.
    fun_cases Heap.accepts k u v with
    | case1 b =>
      cases htu
      exact (hbasic b rfl).elim
    | case2 element items =>
      cases htu
      exact (harray _ items rfl rfl).elim
    | case3 content =>
      cases htu with
      | array helement =>
        cases helement
        exact (hbytes content rfl rfl).elim
    | case4 value entries =>
      cases htu
      exact (hmap _ entries rfl rfl).elim
    | case5 options =>
      cases htu
      exact (hchoice _ rfl).elim
    | case6 s entries =>
      cases htu
      exact (hrecord _ entries rfl rfl).elim
    | case7 => rfl

end Heap

end SchemaGraph
