import Mathlib
import SchemaGraph.Proofs.Unfolding
import SchemaGraph.SchemaMap

/-!
# What a map with schemas as keys finds

A stored key matches a schema if the two have one digest and are equal. Equal schemas have equal
digests, so the digest never keeps an equal key from being found, and a look-up depends on equality
alone. Equality is an equivalence; hence a new key matches the stored key of its class, if there is
one, and no stored key of another class. So the stored keys are one schema of each class, and the
value under a key is the one that was inserted last under any schema of its class.

* `SchemaMap.keyMatches_eq_equalSchemas`: matching is equality.
* `SchemaMap.find?_insert`, `SchemaMap.keys_insert`: what an insertion changes.
* `SchemaMap.Represents`: one stored key for each class of a list.
* `SchemaMap.positions_by_class`: the map from the schemas of a list to their positions.
-/

namespace SchemaGraph.SchemaMap

variable {β : Type} {h : Heap} {m : SchemaMap β} {key s t probe : Handle} {value : β}

/-- Equal schemas have equal digests, so only equality decides. -/
theorem keyMatches_eq_equalSchemas (h : Heap) (key s : Handle) :
    keyMatches h key s = h.equalSchemas s key := by
  unfold keyMatches
  cases hequal : h.equalSchemas s key with
  | false => exact Bool.and_false _
  | true =>
    have hbisim := Heap.equalSchemas_eq_true_iff.mp hequal
    have hdigest : h.structuralHash s = h.structuralHash key :=
      Heap.digestSchema_eq_of_bisimilar nestedDepth hbisim
    rw [Bool.and_true, hdigest, beq_self_eq_true]

theorem equalSchemas_comm (h : Heap) (s t : Handle) :
    h.equalSchemas s t = h.equalSchemas t s := by
  rw [Bool.eq_iff_iff, Heap.equalSchemas_eq_true_iff, Heap.equalSchemas_eq_true_iff]
  exact ⟨Heap.Bisimilar.symm, Heap.Bisimilar.symm⟩

/-- A schema is equal to both of two equal ones or to neither. -/
theorem equalSchemas_congr_right (hst : h.equalSchemas s t = true) (probe : Handle) :
    h.equalSchemas probe s = h.equalSchemas probe t := by
  have hbisim := Heap.equalSchemas_eq_true_iff.mp hst
  exact Heap.equalSchemas_eq_of_bisimilar (.refl h probe) hbisim.symm

/-! ## One insertion -/

theorem find?_eq (h : Heap) (m : SchemaMap β) (probe : Handle) :
    m.find? h probe =
      (m.entries.find? fun entry => h.equalSchemas probe entry.1).map Prod.snd := by
  unfold find?
  simp only [keyMatches_eq_equalSchemas]

/-- An insertion changes what is found under the schemas that are equal to the new key. -/
theorem find?_insert (h : Heap) (m : SchemaMap β) (s : Handle) (value : β) (probe : Handle) :
    (m.insert h s value).find? h probe =
      if h.equalSchemas probe s then some value else m.find? h probe := by
  simp only [find?_eq, insert]
  induction m.entries with
  | nil => cases hprobe : h.equalSchemas probe s <;> simp [insertEntry, hprobe]
  | cons entry rest ih =>
    obtain ⟨key, old⟩ := entry
    rw [insertEntry, keyMatches_eq_equalSchemas, List.find?_cons]
    split
    next hkey =>
      have hcongr := equalSchemas_congr_right hkey probe
      rw [List.find?_cons, hcongr]
      cases h.equalSchemas probe key <;> simp
    next hkey =>
      rw [List.find?_cons]
      cases hprobe : h.equalSchemas probe key with
      | false => exact ih
      | true =>
        -- The schema is equal to the stored key, which is not equal to the new one.
        have hnew : h.equalSchemas probe s = false := by
          rw [equalSchemas_comm, equalSchemas_congr_right hprobe]
          exact Bool.eq_false_of_not_eq_true hkey
        rw [hnew]
        rfl

def keys (m : SchemaMap β) : List Handle :=
  m.entries.map Prod.fst

/-- An insertion adds its key unless an equal one is stored. -/
theorem keys_insert (h : Heap) (m : SchemaMap β) (s : Handle) (value : β) :
    (m.insert h s value).keys =
      if m.keys.any (h.equalSchemas s) then m.keys else m.keys ++ [s] := by
  unfold keys insert
  dsimp only
  induction m.entries with
  | nil => rfl
  | cons entry rest ih =>
    obtain ⟨key, old⟩ := entry
    rw [insertEntry, keyMatches_eq_equalSchemas, List.map_cons, List.any_cons]
    split
    next hkey => simp [hkey]
    next hkey =>
      rw [List.map_cons, ih, Bool.eq_false_of_not_eq_true hkey, Bool.false_or]
      split <;> simp

/-! ## One key for each class -/

/-- Some schemas of a list, one for each class of equal ones. -/
structure Represents (h : Heap) (stored all : List Handle) : Prop where
  subset : stored ⊆ all
  distinct : stored.Pairwise fun a b => h.equalSchemas a b = false
  covers : ∀ s ∈ all, ∃ key ∈ stored, h.equalSchemas s key = true

theorem represents_nil (h : Heap) : Represents h [] [] where
  subset := List.Subset.refl _
  distinct := .nil
  covers _ hs := absurd hs List.not_mem_nil

variable {stored all : List Handle}

/-- A schema of a class that is there. -/
theorem Represents.old (hr : Represents h stored all) (hkey : key ∈ stored)
    (hs : h.equalSchemas s key = true) : Represents h stored (all ++ [s]) where
  subset := List.Subset.trans hr.subset (List.subset_append_left _ _)
  distinct := hr.distinct
  covers t ht := by
    rcases List.mem_append.mp ht with ht | ht
    · exact hr.covers t ht
    · obtain rfl : t = s := List.mem_singleton.mp ht
      exact ⟨key, hkey, hs⟩

/-- A schema of a new class. -/
theorem Represents.new (hr : Represents h stored all)
    (hs : ∀ key ∈ stored, h.equalSchemas s key = false) :
    Represents h (stored ++ [s]) (all ++ [s]) where
  subset := List.append_subset.mpr ⟨List.subset_append_of_subset_left _ hr.subset,
    List.subset_append_right _ _⟩
  distinct := by
    refine List.pairwise_append.mpr ⟨hr.distinct, List.pairwise_singleton _ _, ?_⟩
    intro key hkey t ht
    obtain rfl : t = s := List.mem_singleton.mp ht
    rw [equalSchemas_comm]
    exact hs key hkey
  covers t ht := by
    rcases List.mem_append.mp ht with ht | ht
    · obtain ⟨key, hkey, hequal⟩ := hr.covers t ht
      exact ⟨key, List.mem_append_left _ hkey, hequal⟩
    · obtain rfl : t = s := List.mem_singleton.mp ht
      exact ⟨t, List.mem_append_right _ List.mem_cons_self,
        Heap.equalSchemas_eq_true_iff.mpr (.refl h t)⟩

theorem Represents.insert (hr : Represents h m.keys all) (s : Handle) (value : β) :
    Represents h (m.insert h s value).keys (all ++ [s]) := by
  rw [keys_insert]
  split
  next hany =>
    obtain ⟨key, hkey, hequal⟩ := List.any_eq_true.mp hany
    exact hr.old hkey hequal
  next hnone =>
    apply hr.new
    intro key hkey
    by_contra hequal
    exact hnone (List.any_eq_true.mpr ⟨key, hkey, Bool.eq_true_of_not_eq_false hequal⟩)

/-- One of the stored keys is equal to a schema of the list, and no second one is. -/
theorem Represents.countP_eq_one (hr : Represents h stored all) (hs : s ∈ all) :
    stored.countP (h.equalSchemas s) = 1 := by
  obtain ⟨key, hkey, hequal⟩ := hr.covers s hs
  obtain ⟨before, after, rfl⟩ := List.append_of_mem hkey
  obtain ⟨-, hafter, hbefore⟩ := List.pairwise_append.mp hr.distinct
  have hbefore : ∀ t ∈ before, ¬ h.equalSchemas s t = true := by
    intro t ht
    rw [equalSchemas_comm, equalSchemas_congr_right hequal, hbefore t ht key List.mem_cons_self]
    exact Bool.false_ne_true
  have hafter : ∀ t ∈ after, ¬ h.equalSchemas s t = true := by
    intro t ht
    rw [equalSchemas_comm, equalSchemas_congr_right hequal, equalSchemas_comm,
      (List.pairwise_cons.mp hafter).1 t ht]
    exact Bool.false_ne_true
  rw [List.countP_append, List.countP_cons_of_pos hequal, List.countP_eq_zero.mpr hbefore,
    List.countP_eq_zero.mpr hafter]

/-- The schemas that are equal to one. -/
def classOf (h : Heap) (s : Handle) : Set Handle :=
  {t | h.equalSchemas s t = true}

theorem classOf_eq_iff : classOf h s = classOf h t ↔ h.equalSchemas s t = true := by
  constructor
  · intro heq
    have hself : t ∈ classOf h t := Heap.equalSchemas_eq_true_iff.mpr (.refl h t)
    rw [← heq] at hself
    exact hself
  · intro hst
    ext u
    have hbisim := Heap.equalSchemas_eq_true_iff.mp hst
    have hcongr := Heap.equalSchemas_eq_of_bisimilar hbisim.symm (.refl h u)
    exact Bool.eq_iff_iff.mp hcongr

/-- There are as many stored keys as classes. -/
theorem Represents.length_eq_ncard (hr : Represents h stored all) :
    stored.length = (classOf h '' {s | s ∈ all}).ncard := by
  classical
  have hnodup : (stored.map (classOf h)).Nodup := by
    refine List.Pairwise.map _ ?_ hr.distinct
    intro a b hab heq
    rw [classOf_eq_iff.mp heq] at hab
    cases hab
  have himage : classOf h '' {s | s ∈ all} = ((stored.map (classOf h)).toFinset : Set _) := by
    ext C
    rw [List.coe_toFinset, Set.mem_ofPred_eq, List.mem_map]
    constructor
    · rintro ⟨s, hs, rfl⟩
      obtain ⟨key, hkey, hequal⟩ := hr.covers s hs
      exact ⟨key, hkey, (classOf_eq_iff.mpr hequal).symm⟩
    · rintro ⟨key, hkey, rfl⟩
      exact ⟨key, hr.subset hkey, rfl⟩
  rw [himage, Set.ncard_coe_finset, List.toFinset_card_of_nodup hnodup, List.length_map]

/-! ## The positions of a list -/

theorem positions_concat (h : Heap) (all : List Handle) (s : Handle) :
    positions h (all ++ [s]) = (positions h all).insert h s all.length := by
  unfold positions
  rw [List.zipIdx_append, List.foldl_append]
  simp

theorem represents_positions (h : Heap) (all : List Handle) :
    Represents h (positions h all).keys all := by
  induction all using List.reverseRecOn with
  | nil => exact represents_nil h
  | append_singleton all s ih =>
    rw [positions_concat]
    exact ih.insert s all.length

/-- The last schema of a list that is equal to a given one stands at a position. -/
def IsLastEqual (h : Heap) (all : List Handle) (probe : Handle) (i : Nat) : Prop :=
  (∃ s, all[i]? = some s ∧ h.equalSchemas probe s = true) ∧
    ∀ j s, i < j → all[j]? = some s → h.equalSchemas probe s = false

/-- What stands in a list with one more schema: what stood there, and the new schema at the end. -/
theorem getElem?_concat_eq_some_iff {j : Nat} {t : Handle} :
    (all ++ [s])[j]? = some t ↔ all[j]? = some t ∨ j = all.length ∧ t = s := by
  by_cases hj : j < all.length
  · rw [List.getElem?_append_left hj]
    have hne : j ≠ all.length := by omega
    simp [hne]
  · have hnone : all[j]? = none := List.getElem?_eq_none (by omega)
    rw [List.getElem?_append_right (by omega), List.getElem?_singleton, hnone]
    by_cases heq : j = all.length
    · simp [heq, eq_comm]
    · have hpos : j - all.length ≠ 0 := by omega
      simp [heq, hpos]

theorem isLastEqual_concat {i : Nat} :
    IsLastEqual h (all ++ [s]) probe i ↔
      if h.equalSchemas probe s then i = all.length else IsLastEqual h all probe i := by
  have hnew : (all ++ [s])[all.length]? = some s := List.getElem?_concat_length
  split
  next hequal =>
    constructor
    · rintro ⟨⟨t, ht, -⟩, hlast⟩
      rcases getElem?_concat_eq_some_iff.mp ht with ht | ⟨hi, -⟩
      · have hlt : i < all.length := (List.getElem?_eq_some_iff.mp ht).1
        have hdiffers := hlast _ s hlt hnew
        rw [hequal] at hdiffers
        cases hdiffers
      · exact hi
    · rintro rfl
      refine ⟨⟨s, hnew, hequal⟩, ?_⟩
      intro j t hj ht
      have hlt := (List.getElem?_eq_some_iff.mp ht).1
      rw [List.length_append, List.length_singleton] at hlt
      omega
  next hdiffers =>
    have hdiffers := Bool.eq_false_of_not_eq_true hdiffers
    simp only [IsLastEqual, getElem?_concat_eq_some_iff]
    constructor
    · rintro ⟨⟨t, ht | ⟨-, rfl⟩, hequal⟩, hlast⟩
      · exact ⟨⟨t, ht, hequal⟩, fun j u hj hu => hlast j u hj (.inl hu)⟩
      · rw [hdiffers] at hequal
        cases hequal
    · rintro ⟨⟨t, ht, hequal⟩, hlast⟩
      refine ⟨⟨t, .inl ht, hequal⟩, ?_⟩
      rintro j u hj (hu | ⟨-, rfl⟩)
      · exact hlast j u hj hu
      · exact hdiffers

theorem find?_positions_eq_some_iff {i : Nat} :
    (positions h all).find? h probe = some i ↔ IsLastEqual h all probe i := by
  induction all using List.reverseRecOn with
  | nil => simp [IsLastEqual, positions, find?, empty]
  | append_singleton all s ih =>
    rw [positions_concat, find?_insert, isLastEqual_concat]
    split
    next => rw [Option.some.injEq, eq_comm]
    next => exact ih

theorem find?_positions_eq_none_iff :
    (positions h all).find? h probe = none ↔ ∀ s ∈ all, h.equalSchemas probe s = false := by
  induction all using List.reverseRecOn with
  | nil => simp [positions, find?, empty]
  | append_singleton all s ih =>
    rw [positions_concat, find?_insert, List.forall_mem_append]
    split
    next hequal => simp [hequal]
    next hdiffers => simp [ih, hdiffers]

/-- **A map has one entry for each class, with the last position.** The map from the schemas of a
list to their positions has one entry for each class of equal schemas of the list, with a key from
the list. Under a schema it finds the position of the last one in the list that is equal to it, and
nothing if none is. -/
theorem positions_by_class (h : Heap) (all : List Handle) :
    (∀ entry ∈ (positions h all).entries, entry.1 ∈ all) ∧
    (∀ s ∈ all, (positions h all).entries.countP (fun entry => h.equalSchemas s entry.1) = 1) ∧
    (positions h all).size = (classOf h '' {s | s ∈ all}).ncard ∧
    ∀ probe,
      (∀ i, (positions h all).find? h probe = some i ↔
        (∃ s, all[i]? = some s ∧ h.equalSchemas probe s = true) ∧
          ∀ j s, i < j → all[j]? = some s → h.equalSchemas probe s = false) ∧
      ((positions h all).find? h probe = none ↔ ∀ s ∈ all, h.equalSchemas probe s = false) := by
  have hr := represents_positions h all
  refine ⟨?_, ?_, ?_, ?_⟩
  · intro entry hentry
    exact hr.subset (List.mem_map_of_mem hentry)
  · intro s hs
    have hcount := hr.countP_eq_one hs
    rwa [keys, List.countP_map] at hcount
  · have hlength := hr.length_eq_ncard
    rwa [keys, List.length_map] at hlength
  · intro probe
    exact ⟨fun i => find?_positions_eq_some_iff, find?_positions_eq_none_iff⟩

/-- A loop of one node, a loop of two, and a node with an end behind it. -/
def chains : Heap :=
  ⟨#[⟨.empty, .indexed (Heap.node ⟨0⟩), none, none, none⟩,
    ⟨.empty, .indexed (Heap.node ⟨2⟩), none, none, none⟩,
    ⟨.empty, .indexed (Heap.node ⟨1⟩), none, none, none⟩,
    ⟨.empty, .indexed (Heap.node ⟨4⟩), none, none, none⟩,
    ⟨.empty, .empty, none, none, none⟩]⟩

/-- Both loops are one class, which is found through a node that is no key itself. -/
theorem positions_chains :
    chains.equalSchemas ⟨2⟩ ⟨1⟩ = true ∧ chains.equalSchemas ⟨2⟩ ⟨3⟩ = false ∧
    (positions chains [⟨0⟩, ⟨3⟩, ⟨1⟩, ⟨3⟩]).entries.countP
      (fun entry => chains.equalSchemas ⟨1⟩ entry.1) = 1 ∧
    (positions chains [⟨0⟩, ⟨3⟩, ⟨1⟩, ⟨3⟩]).find? chains ⟨2⟩ = some 2 ∧
    (positions chains [⟨0⟩, ⟨3⟩, ⟨1⟩, ⟨3⟩]).find? chains ⟨4⟩ = none := by
  have hloop : chains.equalSchemas ⟨2⟩ ⟨1⟩ = true := by cbv
  have hended : chains.equalSchemas ⟨2⟩ ⟨3⟩ = false := by cbv
  obtain ⟨-, hone, -, hfind⟩ := positions_by_class chains [⟨0⟩, ⟨3⟩, ⟨1⟩, ⟨3⟩]
  refine ⟨hloop, hended, hone ⟨1⟩ (by decide), ?_, ?_⟩
  · refine ((hfind ⟨2⟩).1 2).mpr ⟨⟨⟨1⟩, rfl, hloop⟩, ?_⟩
    intro j s hj hs
    obtain ⟨rfl, rfl⟩ : j = 3 ∧ s = ⟨3⟩ := by
      have hlt := (List.getElem?_eq_some_iff.mp hs).1
      obtain rfl : j = 3 := by
        have hlt : j < 4 := hlt
        omega
      exact ⟨rfl, (Option.some.inj hs).symm⟩
    exact hended
  · refine (hfind ⟨4⟩).2.mpr ?_
    have hnone : [⟨0⟩, ⟨3⟩, ⟨1⟩, ⟨3⟩].all (fun s => !chains.equalSchemas ⟨4⟩ s) = true := by cbv
    intro s hs
    have := List.all_eq_true.mp hnone s hs
    rwa [Bool.not_eq_true'] at this

end SchemaGraph.SchemaMap
