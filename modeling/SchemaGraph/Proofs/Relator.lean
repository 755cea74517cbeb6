import Mathlib.Data.List.Forall2
import Mathlib.Logic.Relation
import SchemaGraph.Correspondence

/-!
# Types and fields with related references

A relation between references is lifted to types, and from types to fields: two types are related
if they agree constructor by constructor and the references at corresponding places are related.
This says what it means for two schemas to look alike one level down, without naming a place or
walking along the types.

* `DataType.Related`, `Field.Related`: the two lifted relations.
* `mono`, `refl`, `symm`, `comp`: what the relation between the references passes on.
* `Field.forall₂_related_iff`: two lists of fields are related exactly if `correspondences?` finds
  the pairs at corresponding places and all of them are related.
-/

namespace SchemaGraph

variable {ρ σ τ : Type}

/-! ## Types -/

namespace DataType

mutual

/-- Two types agree constructor by constructor, with related references at corresponding
places. -/
inductive Related (R : ρ → σ → Prop) : DataType ρ → DataType σ → Prop
  | basic (b : BasicType) : Related R (.basic b) (.basic b)
  | array {t u} (element : Related R t u) : Related R (.array t) (.array u)
  | map {t u} (value : Related R t u) : Related R (.map t) (.map u)
  | choice {ts us} (options : RelatedAll R ts us) : Related R (.choice ts) (.choice us)
  | record {r s} (schema : R r s) : Related R (.record r) (.record s)

/-- Two lists of types have one length, with related types at equal positions. -/
inductive RelatedAll (R : ρ → σ → Prop) : List (DataType ρ) → List (DataType σ) → Prop
  | nil : RelatedAll R [] []
  | cons {t u ts us} (head : Related R t u) (tail : RelatedAll R ts us) :
      RelatedAll R (t :: ts) (u :: us)

end

theorem relatedAll_iff_forall₂ {R : ρ → σ → Prop} {ts : List (DataType ρ)}
    {us : List (DataType σ)} : RelatedAll R ts us ↔ List.Forall₂ (Related R) ts us := by
  induction ts generalizing us with
  | nil =>
    constructor
    · intro h
      cases h
      exact .nil
    · intro h
      cases h
      exact .nil
  | cons t ts ih =>
    constructor
    · intro h
      cases h with
      | cons head tail => exact .cons head (ih.mp tail)
    · intro h
      cases h with
      | cons head tail => exact .cons head (ih.mpr tail)

mutual

theorem Related.mono {R S : ρ → σ → Prop} (hRS : ∀ r s, R r s → S r s) {t : DataType ρ}
    {u : DataType σ} (h : Related R t u) : Related S t u := by
  cases h with
  | basic b => exact .basic b
  | array h => exact .array (h.mono hRS)
  | map h => exact .map (h.mono hRS)
  | choice h => exact .choice (h.mono hRS)
  | record h => exact .record (hRS _ _ h)

theorem RelatedAll.mono {R S : ρ → σ → Prop} (hRS : ∀ r s, R r s → S r s)
    {ts : List (DataType ρ)} {us : List (DataType σ)} (h : RelatedAll R ts us) :
    RelatedAll S ts us := by
  cases h with
  | nil => exact .nil
  | cons head tail => exact .cons (head.mono hRS) (tail.mono hRS)

end

mutual

theorem Related.refl {R : ρ → ρ → Prop} (hR : ∀ r, R r r) : ∀ t, Related R t t
  | .basic b => .basic b
  | .array t => .array (.refl hR t)
  | .map t => .map (.refl hR t)
  | .choice ts => .choice (.refl hR ts)
  | .record r => .record (hR r)

theorem RelatedAll.refl {R : ρ → ρ → Prop} (hR : ∀ r, R r r) : ∀ ts, RelatedAll R ts ts
  | [] => .nil
  | t :: ts => .cons (.refl hR t) (.refl hR ts)

end

mutual

theorem Related.symm {R : ρ → σ → Prop} {t : DataType ρ} {u : DataType σ}
    (h : Related R t u) : Related (fun s r => R r s) u t := by
  cases h with
  | basic b => exact .basic b
  | array h => exact .array h.symm
  | map h => exact .map h.symm
  | choice h => exact .choice h.symm
  | record h => exact .record h

theorem RelatedAll.symm {R : ρ → σ → Prop} {ts : List (DataType ρ)} {us : List (DataType σ)}
    (h : RelatedAll R ts us) : RelatedAll (fun s r => R r s) us ts := by
  cases h with
  | nil => exact .nil
  | cons head tail => exact .cons head.symm tail.symm

end

mutual

theorem Related.comp {R : ρ → σ → Prop} {S : σ → τ → Prop} {t : DataType ρ} {u : DataType σ}
    {v : DataType τ} (h : Related R t u) (k : Related S u v) :
    Related (Relation.Comp R S) t v := by
  cases h with
  | basic b => cases k with | basic => exact .basic b
  | array h => cases k with | array k => exact .array (h.comp k)
  | map h => cases k with | map k => exact .map (h.comp k)
  | choice h => cases k with | choice k => exact .choice (h.comp k)
  | record h => cases k with | record k => exact .record ⟨_, h, k⟩

theorem RelatedAll.comp {R : ρ → σ → Prop} {S : σ → τ → Prop} {ts : List (DataType ρ)}
    {us : List (DataType σ)} {vs : List (DataType τ)} (h : RelatedAll R ts us)
    (k : RelatedAll S us vs) : RelatedAll (Relation.Comp R S) ts vs := by
  cases h with
  | nil => cases k with | nil => exact .nil
  | cons head tail =>
    cases k with
    | cons head' tail' => exact .cons (head.comp head') (tail.comp tail')

end

/-! ### The pairs at corresponding places -/

mutual

theorem Related.exists_correspondence? {R : ρ → σ → Prop} {t : DataType ρ} {u : DataType σ}
    (h : Related R t u) :
    ∃ pairs, t.correspondence? u = some pairs ∧ ∀ p ∈ pairs, R p.1 p.2 := by
  cases h with
  | basic b => exact ⟨[], by simp [correspondence?], by simp⟩
  | array h => exact h.exists_correspondence?
  | map h => exact h.exists_correspondence?
  | choice h => exact h.exists_correspondences?
  | record h => exact ⟨_, rfl, by simpa using h⟩

theorem RelatedAll.exists_correspondences? {R : ρ → σ → Prop} {ts : List (DataType ρ)}
    {us : List (DataType σ)} (h : RelatedAll R ts us) :
    ∃ pairs, correspondences? ts us = some pairs ∧ ∀ p ∈ pairs, R p.1 p.2 := by
  cases h with
  | nil => exact ⟨[], rfl, by simp⟩
  | cons head tail =>
    obtain ⟨first, hfirst, hR⟩ := head.exists_correspondence?
    obtain ⟨rest, hrest, hR'⟩ := tail.exists_correspondences?
    refine ⟨first ++ rest, by simp [correspondences?, hfirst, hrest], ?_⟩
    intro p hp
    rcases List.mem_append.mp hp with hp | hp
    · exact hR p hp
    · exact hR' p hp

end

mutual

theorem related_of_correspondence? {R : ρ → σ → Prop} (t : DataType ρ) (u : DataType σ)
    {pairs : List (ρ × σ)} (h : t.correspondence? u = some pairs)
    (hR : ∀ p ∈ pairs, R p.1 p.2) : Related R t u := by
  match t, u with
  | .basic a, .basic b =>
    have hab : a = b := by
      by_contra hne
      simp [correspondence?, hne] at h
    exact hab ▸ .basic a
  | .array t, .array u => exact .array (related_of_correspondence? t u h hR)
  | .map t, .map u => exact .map (related_of_correspondence? t u h hR)
  | .choice ts, .choice us => exact .choice (relatedAll_of_correspondences? ts us h hR)
  | .record r, .record s =>
    obtain rfl : [(r, s)] = pairs := Option.some.inj h
    exact .record (hR (r, s) List.mem_cons_self)

theorem relatedAll_of_correspondences? {R : ρ → σ → Prop} (ts : List (DataType ρ))
    (us : List (DataType σ)) {pairs : List (ρ × σ)} (h : correspondences? ts us = some pairs)
    (hR : ∀ p ∈ pairs, R p.1 p.2) : RelatedAll R ts us := by
  match ts, us with
  | [], [] => exact .nil
  | t :: ts, u :: us =>
    obtain ⟨first, hfirst, h⟩ := Option.bind_eq_some_iff.mp h
    obtain ⟨rest, hrest, h⟩ := Option.bind_eq_some_iff.mp h
    obtain rfl : first ++ rest = pairs := Option.some.inj h
    exact .cons
      (related_of_correspondence? t u hfirst fun p hp => hR p (List.mem_append_left _ hp))
      (relatedAll_of_correspondences? ts us hrest fun p hp => hR p (List.mem_append_right _ hp))

end

theorem related_iff {R : ρ → σ → Prop} {t : DataType ρ} {u : DataType σ} :
    Related R t u ↔ ∃ pairs, t.correspondence? u = some pairs ∧ ∀ p ∈ pairs, R p.1 p.2 :=
  ⟨Related.exists_correspondence?, fun ⟨_, h, hR⟩ => related_of_correspondence? t u h hR⟩

end DataType

/-! ## Lists, position by position -/

theorem forall₂_iff_getElem? {α β : Type} {R : α → β → Prop} {xs : List α} {ys : List β} :
    List.Forall₂ R xs ys ↔ xs.length = ys.length ∧
      ∀ (i : Nat) (x : α) (y : β), xs[i]? = some x → ys[i]? = some y → R x y := by
  rw [List.forall₂_iff_get]
  refine and_congr_right fun _ => ?_
  constructor
  · intro hR i x y hx hy
    obtain ⟨hi, rfl⟩ := List.getElem?_eq_some_iff.mp hx
    obtain ⟨hj, rfl⟩ := List.getElem?_eq_some_iff.mp hy
    exact hR i hi hj
  · intro hR i hi hj
    exact hR i _ _ (List.getElem?_eq_getElem hi) (List.getElem?_eq_getElem hj)

/-- At every position there are related elements, or there is none on either side. -/
theorem rel_getElem?_of_forall₂ {α β : Type} {R : α → β → Prop} {xs : List α} {ys : List β}
    (h : List.Forall₂ R xs ys) (i : Nat) : Option.Rel R xs[i]? ys[i]? := by
  induction h generalizing i with
  | nil => exact .none
  | cons head _ ih =>
    cases i with
    | zero => exact .some head
    | succ i => exact ih i

/-! ## Fields -/

namespace Field

/-- Two fields agree on everything but their types, and the types are related. -/
structure Related (R : ρ → σ → Prop) (f : Field ρ) (g : Field σ) : Prop where
  name : f.name = g.name
  nullable : f.nullable = g.nullable
  aliases : f.aliases = g.aliases
  defaultValue : f.defaultValue = g.defaultValue
  dataType : f.dataType.Related R g.dataType

theorem Related.mono {R S : ρ → σ → Prop} (hRS : ∀ r s, R r s → S r s) {f : Field ρ}
    {g : Field σ} (h : Related R f g) : Related S f g :=
  { h with dataType := h.dataType.mono hRS }

theorem Related.refl {R : ρ → ρ → Prop} (hR : ∀ r, R r r) (f : Field ρ) : Related R f f :=
  ⟨rfl, rfl, rfl, rfl, .refl hR f.dataType⟩

theorem Related.symm {R : ρ → σ → Prop} {f : Field ρ} {g : Field σ} (h : Related R f g) :
    Related (fun s r => R r s) g f :=
  ⟨h.name.symm, h.nullable.symm, h.aliases.symm, h.defaultValue.symm, h.dataType.symm⟩

theorem Related.comp {R : ρ → σ → Prop} {S : σ → τ → Prop} {f : Field ρ} {g : Field σ}
    {k : Field τ} (hfg : Related R f g) (hgk : Related S g k) :
    Related (Relation.Comp R S) f k where
  name := hfg.name.trans hgk.name
  nullable := hfg.nullable.trans hgk.nullable
  aliases := hfg.aliases.trans hgk.aliases
  defaultValue := hfg.defaultValue.trans hgk.defaultValue
  dataType := hfg.dataType.comp hgk.dataType

theorem related_iff_agree {R : ρ → σ → Prop} {f : Field ρ} {g : Field σ} :
    Related R f g ↔ f.name = g.name ∧ f.nullable = g.nullable ∧
      (∀ text, text ∈ f.aliases ↔ text ∈ g.aliases) ∧ f.defaultValue = g.defaultValue ∧
      f.dataType.Related R g.dataType := by
  constructor
  · intro h
    refine ⟨h.name, h.nullable, ?_, h.defaultValue, h.dataType⟩
    intro text
    rw [h.aliases]
  · rintro ⟨hname, hnullable, haliases, hdefault, htype⟩
    exact ⟨hname, hnullable, AliasSet.ext_mem haliases, hdefault, htype⟩

/-! ### Lists of fields -/

theorem forall₂_related_mono {R S : ρ → σ → Prop} (hRS : ∀ r s, R r s → S r s)
    {fs : List (Field ρ)} {gs : List (Field σ)} (h : List.Forall₂ (Related R) fs gs) :
    List.Forall₂ (Related S) fs gs :=
  h.imp fun _ _ related => related.mono hRS

theorem forall₂_related_refl {R : ρ → ρ → Prop} (hR : ∀ r, R r r) (fs : List (Field ρ)) :
    List.Forall₂ (Related R) fs fs :=
  List.forall₂_same.mpr fun f _ => .refl hR f

theorem forall₂_related_symm {R : ρ → σ → Prop} {fs : List (Field ρ)} {gs : List (Field σ)}
    (h : List.Forall₂ (Related R) fs gs) :
    List.Forall₂ (Related fun s r => R r s) gs fs :=
  List.Forall₂.flip (h.imp fun _ _ related => related.symm)

theorem forall₂_related_comp {R : ρ → σ → Prop} {S : σ → τ → Prop} {fs : List (Field ρ)}
    {gs : List (Field σ)} {ks : List (Field τ)} (hfg : List.Forall₂ (Related R) fs gs)
    (hgk : List.Forall₂ (Related S) gs ks) :
    List.Forall₂ (Related (Relation.Comp R S)) fs ks := by
  induction hfg generalizing ks with
  | nil =>
    cases hgk
    exact .nil
  | cons head _ ih =>
    cases hgk with
    | cons head' tail' => exact .cons (head.comp head') (ih tail')

theorem related_iff {R : ρ → σ → Prop} {f : Field ρ} {g : Field σ} :
    Related R f g ↔ ∃ pairs, f.correspondence? g = some pairs ∧ ∀ p ∈ pairs, R p.1 p.2 := by
  unfold correspondence?
  constructor
  · intro h
    rw [if_pos ⟨h.name, h.nullable, h.aliases, h.defaultValue⟩]
    exact h.dataType.exists_correspondence?
  · rintro ⟨pairs, h, hR⟩
    split at h
    next agree =>
      obtain ⟨hname, hnullable, haliases, hdefault⟩ := agree
      exact ⟨hname, hnullable, haliases, hdefault, DataType.related_iff.mpr ⟨pairs, h, hR⟩⟩
    next => cases h

/-- The pairs at corresponding places carry the whole relation between two lists of fields. -/
theorem forall₂_related_iff {R : ρ → σ → Prop} {fs : List (Field ρ)} {gs : List (Field σ)} :
    List.Forall₂ (Related R) fs gs ↔
      ∃ pairs, correspondences? fs gs = some pairs ∧ ∀ p ∈ pairs, R p.1 p.2 := by
  constructor
  · intro h
    induction h with
    | nil => exact ⟨[], rfl, by simp⟩
    | cons head _ ih =>
      obtain ⟨first, hfirst, hR⟩ := related_iff.mp head
      obtain ⟨rest, hrest, hR'⟩ := ih
      refine ⟨first ++ rest, by simp [correspondences?, hfirst, hrest], ?_⟩
      intro p hp
      rcases List.mem_append.mp hp with hp | hp
      · exact hR p hp
      · exact hR' p hp
  · rintro ⟨pairs, h, hR⟩
    induction fs generalizing gs pairs with
    | nil =>
      cases gs with
      | nil => exact .nil
      | cons g gs => cases h
    | cons f fs ih =>
      cases gs with
      | nil => cases h
      | cons g gs =>
        obtain ⟨first, hfirst, h⟩ := Option.bind_eq_some_iff.mp h
        obtain ⟨rest, hrest, h⟩ := Option.bind_eq_some_iff.mp h
        obtain rfl : first ++ rest = pairs := Option.some.inj h
        refine .cons (related_iff.mpr ⟨first, hfirst, ?_⟩) (ih rest hrest ?_)
        · intro p hp
          exact hR p (List.mem_append_left _ hp)
        · intro p hp
          exact hR p (List.mem_append_right _ hp)

end Field

end SchemaGraph
