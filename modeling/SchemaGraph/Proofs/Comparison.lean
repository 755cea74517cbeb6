import SchemaGraph.Equality
import SchemaGraph.Proofs.Bisimulation

/-!
# Comparison decides bisimilarity

`Heap.compareAll` answers `true` for a pair that it has met before, although that pair may still be
under comparison. The invariant that makes this right is that every recorded pair leads only to
pairs that are settled or still pending (`Heap.Supported`). A run that answers `true` leaves nothing
pending, so what it has recorded is a bisimulation; and pairs of bisimilar schemas lead only to such
pairs, so a run that starts from them never meets a difference.

* `Heap.supported_of_compareAll`: what a run that answers `true` leaves behind.
* `Heap.compareAll_of_bisimilar`: a run on bisimilar pairs answers `true`, whatever is recorded.
* `Heap.equalSchemas_eq_true_iff`, `Heap.equalFields_eq_true_iff`, `Heap.equalTypes_eq_true_iff`: a
  comparison by itself decides bisimilarity.
* `Heap.equalSchemas_iff_exists_relation`: the same with the conditions on the relation spelled out.
-/

namespace SchemaGraph.Heap

variable {h : Heap}

/-! ## What a run records -/

/-- The two sides are one schema, or the pair is recorded. -/
def Settled (recorded : List HandlePair) (a b : Handle) : Prop :=
  a = b ∨ (a, b) ∈ recorded

theorem Settled.mono {recorded recorded' : List HandlePair} (hsub : recorded ⊆ recorded')
    {a b : Handle} (hab : Settled recorded a b) : Settled recorded' a b := by
  rcases hab with rfl | hab
  · exact .inl rfl
  · exact .inr (hsub hab)

/-- Every recorded pair leads only to pairs that are settled or pending. -/
def Supported (h : Heap) (recorded pending : List HandlePair) : Prop :=
  ∀ p ∈ recorded, List.Forall₂
    (Field.Related fun a b => Settled recorded a b ∨ (a, b) ∈ pending) (h.fields p.1) (h.fields p.2)

theorem supported_nil (h : Heap) (pending : List HandlePair) : Supported h [] pending := by
  intro p hp
  cases hp

theorem Supported.of_nil {recorded pending : List HandlePair} (hs : Supported h recorded []) :
    Supported h recorded pending := by
  intro p hp
  refine Field.forall₂_related_mono ?_ (hs p hp)
  intro a b hab
  exact .inl (hab.resolve_right List.not_mem_nil)

/-- A settled pair need not be looked at. -/
theorem Supported.skip {recorded pending : List HandlePair} {p : HandlePair}
    (hs : Supported h recorded (p :: pending)) (hp : Settled recorded p.1 p.2) :
    Supported h recorded pending := by
  intro q hq
  refine Field.forall₂_related_mono ?_ (hs q hq)
  intro a b hab
  rcases hab with hab | hab
  · exact .inl hab
  · rcases List.mem_cons.mp hab with rfl | hab
    · exact .inl hp
    · exact .inr hab

/-- A pair may be recorded once the pairs that it leads to are pending. -/
theorem Supported.expand {recorded pending further : List HandlePair} {p : HandlePair}
    (hs : Supported h recorded (p :: pending))
    (hp : Field.correspondences? (h.fields p.1) (h.fields p.2) = some further) :
    Supported h (p :: recorded) (further ++ pending) := by
  intro q hq
  rcases List.mem_cons.mp hq with rfl | hq
  · refine Field.forall₂_related_iff.mpr ⟨further, hp, ?_⟩
    intro r hr
    exact .inr (List.mem_append_left _ hr)
  · refine Field.forall₂_related_mono ?_ (hs q hq)
    intro a b hab
    rcases hab with hab | hab
    · exact .inl (hab.mono (List.subset_cons_self _ _))
    · rcases List.mem_cons.mp hab with rfl | hab
      · exact .inl (.inr List.mem_cons_self)
      · exact .inr (List.mem_append_right _ hab)

/-- With nothing pending, what is settled is a bisimulation. -/
theorem Supported.isBisimulation {recorded : List HandlePair} (hs : Supported h recorded []) :
    IsBisimulation h h (Settled recorded) := by
  intro a b hab
  rcases hab with rfl | hab
  · exact Field.forall₂_related_refl (fun _ => .inl rfl) (h.fields a)
  · refine Field.forall₂_related_mono ?_ (hs (a, b) hab)
    intro c d hcd
    rcases hcd with hcd | hcd
    · exact hcd
    · cases hcd

/-- A run that answers `true` keeps what was recorded, settles all pending pairs and leaves
recorded pairs that support each other. -/
theorem supported_of_compareAll {recorded pending final : List HandlePair}
    (hs : Supported h recorded pending) (hrun : h.compareAll recorded pending = (true, final)) :
    Supported h final [] ∧ recorded ⊆ final ∧ ∀ p ∈ pending, Settled final p.1 p.2 := by
  fun_induction compareAll h recorded pending with
  | case1 recorded =>
    obtain rfl : recorded = final := (Prod.mk.inj hrun).2
    exact ⟨hs, List.Subset.refl _, by simp⟩
  | case2 recorded p pending met ih =>
    obtain ⟨hfinal, hsub, hall⟩ := ih (hs.skip met) hrun
    refine ⟨hfinal, hsub, ?_⟩
    intro q hq
    rcases List.mem_cons.mp hq with rfl | hq
    · exact Settled.mono hsub met
    · exact hall q hq
  | case3 recorded p pending unmet hnone => simp at hrun
  | case4 recorded p pending unmet further hfurther ih =>
    obtain ⟨hfinal, hsub, hall⟩ := ih (hs.expand hfurther) hrun
    refine ⟨hfinal, List.Subset.trans (List.subset_cons_self _ _) hsub, ?_⟩
    intro q hq
    rcases List.mem_cons.mp hq with rfl | hq
    · exact .inr (hsub List.mem_cons_self)
    · exact hall q (List.mem_append_right _ hq)

/-! ## Both directions -/

/-- Bisimilar pairs lead only to bisimilar pairs, so no difference is ever met. -/
theorem compareAll_of_bisimilar {recorded pending : List HandlePair}
    (hall : ∀ p ∈ pending, Bisimilar h h p.1 p.2) :
    (h.compareAll recorded pending).1 = true := by
  fun_induction compareAll h recorded pending with
  | case1 recorded => rfl
  | case2 recorded p pending met ih =>
    exact ih fun q hq => hall q (List.mem_cons_of_mem _ hq)
  | case3 recorded p pending unmet hnone =>
    obtain ⟨further, hsome, -⟩ :=
      Field.forall₂_related_iff.mp (hall p List.mem_cons_self).fields
    rw [hnone] at hsome
    cases hsome
  | case4 recorded p pending unmet further hfurther ih =>
    obtain ⟨further', hsome, hbisim⟩ :=
      Field.forall₂_related_iff.mp (hall p List.mem_cons_self).fields
    obtain rfl : further = further' := Option.some.inj (hfurther.symm.trans hsome)
    apply ih
    intro q hq
    rcases List.mem_append.mp hq with hq | hq
    · exact hbisim q hq
    · exact hall q (List.mem_cons_of_mem _ hq)

/-- A run that starts with recorded pairs that support each other answers whether all its pairs are
bisimilar. -/
theorem compareAll_eq_true_iff {recorded pairs : List HandlePair} (hs : Supported h recorded []) :
    (h.compareAll recorded pairs).1 = true ↔ ∀ p ∈ pairs, Bisimilar h h p.1 p.2 := by
  constructor
  · intro hrun p hp
    obtain ⟨hfinal, -, hall⟩ := supported_of_compareAll hs.of_nil (Prod.ext hrun rfl)
    exact hfinal.isBisimulation.bisimilar (hall p hp)
  · exact compareAll_of_bisimilar

theorem compareAll_nil_eq_true_iff {pairs : List HandlePair} :
    (h.compareAll [] pairs).1 = true ↔ ∀ p ∈ pairs, Bisimilar h h p.1 p.2 :=
  compareAll_eq_true_iff (supported_nil h [])

theorem equalSchemas_eq_true_iff {a b : Handle} :
    h.equalSchemas a b = true ↔ Bisimilar h h a b := by
  unfold equalSchemas compareSchemas
  rw [compareAll_nil_eq_true_iff]
  simp

/-- Equality is the same for schemas of another heap that unfold in the same way. -/
theorem equalSchemas_eq_of_bisimilar {k : Heap} {a b c d : Handle} (hac : Bisimilar h k a c)
    (hbd : Bisimilar h k b d) : k.equalSchemas c d = h.equalSchemas a b := by
  rw [Bool.eq_iff_iff, equalSchemas_eq_true_iff, equalSchemas_eq_true_iff]
  constructor
  · intro hcd
    exact (hac.trans hcd).trans hbd.symm
  · intro hab
    exact (hac.symm.trans hab).trans hbd

theorem equalTypes_eq_true_iff {t u : DataType Handle} :
    h.equalTypes t u = true ↔ DataType.Related (Bisimilar h h) t u := by
  unfold equalTypes compareTypes
  rw [DataType.related_iff]
  split
  next hnone => simp [hnone]
  next pairs hsome => simp [hsome, compareAll_nil_eq_true_iff]

theorem equalFields_eq_true_iff {f g : Field Handle} :
    h.equalFields f g = true ↔ Field.Related (Bisimilar h h) f g := by
  unfold equalFields compareFields
  rw [Field.related_iff]
  split
  next hnone => simp [hnone]
  next pairs hsome => simp [hsome, compareAll_nil_eq_true_iff]

/-- **Equality is bisimilarity.** Two schemas are equal exactly if some relation holds between them
and, wherever it holds, the field lists have one length, fields at one position agree on name,
nullability, alias set and default value, and their types agree constructor by constructor with
nested schemas related again. -/
theorem equalSchemas_iff_exists_relation (h : Heap) (a b : Handle) :
    h.equalSchemas a b = true ↔
      ∃ R : Handle → Handle → Prop, R a b ∧ ∀ l r, R l r →
        (h.fields l).length = (h.fields r).length ∧
          ∀ (i : Nat) (f g : Field Handle),
            (h.fields l)[i]? = some f → (h.fields r)[i]? = some g →
              f.name = g.name ∧ f.nullable = g.nullable ∧
                (∀ text, text ∈ f.aliases ↔ text ∈ g.aliases) ∧
                f.defaultValue = g.defaultValue ∧ DataType.Related R f.dataType g.dataType := by
  rw [equalSchemas_eq_true_iff]
  constructor
  · rintro ⟨R, hR, hab⟩
    refine ⟨R, hab, ?_⟩
    intro l r hlr
    obtain ⟨hlen, hpos⟩ := forall₂_iff_getElem?.mp (hR l r hlr)
    refine ⟨hlen, ?_⟩
    intro i f g hf hg
    exact Field.related_iff_agree.mp (hpos i f g hf hg)
  · rintro ⟨R, hab, hR⟩
    refine ⟨R, ?_, hab⟩
    intro l r hlr
    obtain ⟨hlen, hpos⟩ := hR l r hlr
    refine forall₂_iff_getElem?.mpr ⟨hlen, ?_⟩
    intro i f g hf hg
    exact Field.related_iff_agree.mpr (hpos i f g hf hg)

/-- The fields of a node of a list of numbers. -/
def node (next : Handle) : List (Field Handle) :=
  [⟨"value", .basic .int, none, .empty, true⟩, ⟨"next", .record next, none, .empty, true⟩]

/-- A loop of one node, and a loop of two. -/
def loops : Heap :=
  ⟨#[⟨.empty, .indexed (node ⟨0⟩), none, none, none⟩,
    ⟨.empty, .indexed (node ⟨2⟩), none, none, none⟩,
    ⟨.empty, .indexed (node ⟨1⟩), none, none, none⟩]⟩

-- How many nodes a loop is made of does not show in its unfolding.
example : loops.equalSchemas ⟨0⟩ ⟨1⟩ = true := by cbv

end SchemaGraph.Heap
