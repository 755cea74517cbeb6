import SchemaGraph.Heap.Printer
import SchemaGraph.Proofs.Acceptance
import SchemaGraph.Proofs.Recursion
import SchemaGraph.Proofs.Tree
import SchemaGraph.Proofs.Unfolding

/-!
# The same schemas elsewhere

Handles are places in a heap, and a program may use them only to look up what stands there. If the
schemas that some roots lead to are found again in another heap, behind other handles and under
other names, then nothing that can be asked about them depends on where they are. What a comparison
records, what the search for a cycle has visited and what else the heaps hold plays no part.

Most questions depend on a schema only up to bisimilarity, and a schema is bisimilar to its image.
Whether it is recursive is not such a question: a schema that leads to a loop may unfold like the
loop itself. Here it is needed that no two schemas have one image.

* `Heap.Carries`: a closed set of schemas is found again under other handles.
* `Heap.Carries.bisimilar`, `Heap.Carries.isRecursive_eq`: what follows with and without an image
  for two schemas.
* `Heap.IsRenaming`: the schemas that some roots lead to correspond one to one.
* `Heap.IsRenaming.observations_eq`: nothing tells the roots and their images apart.
-/

namespace SchemaGraph

variable {ρ σ : Type}

/-! ## Types and fields with replaced references -/

namespace DataType

variable {f : ρ → σ}

mutual

theorem mapReferences_id : ∀ t : DataType ρ, t.mapReferences id = t
  | .basic _ => rfl
  | .array t => congrArg array t.mapReferences_id
  | .map t => congrArg map t.mapReferences_id
  | .choice ts => congrArg choice (mapReferencesAll_id ts)
  | .record _ => rfl

theorem mapReferencesAll_id : ∀ ts : List (DataType ρ), mapReferencesAll id ts = ts
  | [] => rfl
  | t :: ts => congrArg₂ List.cons t.mapReferences_id (mapReferencesAll_id ts)

end

mutual

theorem references_mapReferences (f : ρ → σ) :
    ∀ t : DataType ρ, (t.mapReferences f).references = t.references.map f
  | .basic _ => rfl
  | .array t => t.references_mapReferences f
  | .map t => t.references_mapReferences f
  | .choice ts => referencesAll_mapReferencesAll f ts
  | .record _ => rfl

theorem referencesAll_mapReferencesAll (f : ρ → σ) :
    ∀ ts : List (DataType ρ), referencesAll (mapReferencesAll f ts) = (referencesAll ts).map f
  | [] => rfl
  | t :: ts => by
    rw [mapReferencesAll, referencesAll, referencesAll, List.map_append,
      t.references_mapReferences f, referencesAll_mapReferencesAll f ts]

end

mutual

/-- The short form of a type does not show its references. -/
theorem text_mapReferences (f : ρ → σ) : ∀ t : DataType ρ, (t.mapReferences f).text = t.text
  | .basic _ => rfl
  | .array t => by rw [mapReferences, text, text, t.text_mapReferences f]
  | .map t => by rw [mapReferences, text, text, t.text_mapReferences f]
  | .choice ts => by rw [mapReferences, text, text, texts_mapReferencesAll f ts]
  | .record _ => rfl

theorem texts_mapReferencesAll (f : ρ → σ) :
    ∀ ts : List (DataType ρ), texts (mapReferencesAll f ts) = texts ts
  | [] => rfl
  | t :: ts => congrArg₂ List.cons (t.text_mapReferences f) (texts_mapReferencesAll f ts)

end

mutual

theorem related_mapReferences {R : ρ → σ → Prop} :
    ∀ t : DataType ρ, (∀ r ∈ t.references, R r (f r)) → Related R t (t.mapReferences f)
  | .basic b, _ => .basic b
  | .array t, h => .array (related_mapReferences t h)
  | .map t, h => .map (related_mapReferences t h)
  | .choice ts, h => .choice (relatedAll_mapReferencesAll ts h)
  | .record r, h => .record (h r List.mem_cons_self)

theorem relatedAll_mapReferencesAll {R : ρ → σ → Prop} :
    ∀ ts : List (DataType ρ), (∀ r ∈ referencesAll ts, R r (f r)) →
      RelatedAll R ts (mapReferencesAll f ts)
  | [], _ => .nil
  | t :: ts, h =>
    .cons (related_mapReferences t fun r hr => h r (List.mem_append_left _ hr))
      (relatedAll_mapReferencesAll ts fun r hr => h r (List.mem_append_right _ hr))

end

end DataType

namespace Field

theorem mapReferences_id (a : Field ρ) : a.mapReferences id = a := by
  unfold mapReferences
  rw [a.dataType.mapReferences_id]

theorem text_mapReferences (f : ρ → σ) (a : Field ρ) : (a.mapReferences f).text = a.text := by
  unfold text
  rw [mapReferences, a.dataType.text_mapReferences f]

theorem related_mapReferences {R : ρ → σ → Prop} {f : ρ → σ} (a : Field ρ)
    (h : ∀ r ∈ a.dataType.references, R r (f r)) : Related R a (a.mapReferences f) :=
  ⟨rfl, rfl, rfl, rfl, a.dataType.related_mapReferences h⟩

theorem forall₂_related_map {R : ρ → σ → Prop} {f : ρ → σ} {as : List (Field ρ)}
    (h : ∀ a ∈ as, ∀ r ∈ a.dataType.references, R r (f r)) :
    List.Forall₂ (Related R) as (as.map (mapReferences f)) := by
  rw [List.forall₂_map_right_iff, List.forall₂_same]
  intro a ha
  exact a.related_mapReferences (h a ha)

end Field

/-- A table with replaced references is asked through the same indices. -/
theorem FieldTable.byName_of_fields_eq_map {t : FieldTable ρ} {u : FieldTable σ} {f : ρ → σ}
    (h : u.fields = t.fields.map (Field.mapReferences f)) (text : String) :
    u.byName text = (t.byName text).map (Field.mapReferences f) := by
  have hrelated : List.Forall₂ (Field.Related fun r s => f r = s) t.fields u.fields := by
    rw [h]
    exact Field.forall₂_related_map fun _ _ _ _ => rfl
  have hposition : u.position? text = t.position? text :=
    (position?_eq_of_related hrelated text).symm
  unfold byName
  rw [hposition, h]
  cases t.position? text with
  | none => rfl
  | some i => exact List.getElem?_map

namespace Heap

variable {h k : Heap} {rename : Handle → Handle} {S : Set Handle} {a b s t : Handle}

/-! ## Closed sets of schemas -/

/-- The schemas that some roots lead to, the roots among them. -/
def ledFrom (h : Heap) (roots : Set Handle) : Set Handle :=
  {t | ∃ r ∈ roots, h.Leads r t}

theorem subset_ledFrom (h : Heap) (roots : Set Handle) : roots ⊆ h.ledFrom roots :=
  fun r hr => ⟨r, hr, .refl⟩

theorem closed_ledFrom (h : Heap) (roots : Set Handle) : h.Closed (h.ledFrom roots) := by
  rintro s ⟨r, hr, hlead⟩ t href
  exact ⟨r, hr, hlead.tail href⟩

/-- A closed set of schemas is found again in another heap: behind the image of a handle are the
same fields, with the images of the handles in their types. -/
structure Carries (h k : Heap) (rename : Handle → Handle) (S : Set Handle) : Prop where
  closed : h.Closed S
  fields : ∀ s ∈ S, k.fields (rename s) = (h.fields s).map (Field.mapReferences rename)

/-- A closed set of schemas that have the same fields in two heaps. -/
theorem carries_id (hclosed : h.Closed S) (hfields : ∀ s ∈ S, k.fields s = h.fields s) :
    h.Carries k id S where
  closed := hclosed
  fields s hs := by
    have hid : (h.fields s).map (Field.mapReferences id) = h.fields s := by
      rw [funext Field.mapReferences_id, List.map_id']
    rw [hid]
    exact hfields s hs

namespace Carries

theorem bisimilar (hc : h.Carries k rename S) (hs : s ∈ S) : Bisimilar h k s (rename s) := by
  have hsim : IsBisimulation h k fun a b => a ∈ S ∧ b = rename a := by
    rintro a _ ⟨ha, rfl⟩
    rw [hc.fields a ha]
    apply Field.forall₂_related_map
    intro f hf r hr
    exact ⟨hc.closed a ha r (List.mem_flatMap.mpr ⟨f, hf, hr⟩), rfl⟩
  exact hsim.bisimilar ⟨hs, rfl⟩

theorem accepts_eq (hc : h.Carries k rename S) {t : DataType Handle}
    (ht : ∀ r ∈ t.references, r ∈ S) (v : Value) :
    k.accepts (t.mapReferences rename) v = h.accepts t v := by
  have hrelated : t.Related (Bisimilar h k) (t.mapReferences rename) :=
    t.related_mapReferences fun r hr => hc.bisimilar (ht r hr)
  exact (accepts_eq_of_related hrelated v).symm

theorem field?_eq (hc : h.Carries k rename S) (hs : s ∈ S) (text : String) :
    k.field? (rename s) text = (h.field? s text).map (Field.mapReferences rename) :=
  FieldTable.byName_of_fields_eq_map (hc.fields s hs) text

theorem text_eq (hc : h.Carries k rename S) (hs : s ∈ S) : k.text (rename s) = h.text s := by
  have htexts : (k.fields (rename s)).map Field.text = (h.fields s).map Field.text := by
    rw [hc.fields s hs, List.map_map]
    exact List.map_congr_left fun f _ => f.text_mapReferences rename
  rw [text, text, htexts]

/-! ### Paths -/

theorem references_eq (hc : h.Carries k rename S) (hs : s ∈ S) :
    k.references (rename s) = (h.references s).map rename := by
  unfold references
  rw [hc.fields s hs, List.flatMap_map, List.map_flatMap]
  refine List.flatMap_congr fun f _ => ?_
  exact f.dataType.references_mapReferences rename

theorem leads (hc : h.Carries k rename S) (hs : s ∈ S) (hlead : h.Leads s t) :
    k.Leads (rename s) (rename t) := by
  induction hlead with
  | refl => exact .refl
  | @tail m t hm href ih =>
    have hmS : m ∈ S := hc.closed.mem_of_leads hs hm
    have himage : rename t ∈ k.references (rename m) := by
      rw [hc.references_eq hmS]
      exact List.mem_map_of_mem href
    exact ih.tail himage

theorem exists_leads (hc : h.Carries k rename S) (hs : s ∈ S) (hlead : k.Leads (rename s) t) :
    ∃ u, h.Leads s u ∧ rename u = t := by
  induction hlead with
  | refl => exact ⟨s, .refl, rfl⟩
  | @tail m t _ href ih =>
    obtain ⟨u, hu, rfl⟩ := ih
    have huS : u ∈ S := hc.closed.mem_of_leads hs hu
    rw [hc.references_eq huS] at href
    obtain ⟨t', ht', rfl⟩ := List.mem_map.mp href
    exact ⟨t', hu.tail ht', rfl⟩

/-- A cycle through the image of a schema comes from a cycle through the schema, unless it comes
from a path to another schema with the same image. -/
theorem isRecursive_eq (hc : h.Carries k rename S) (hinj : Set.InjOn rename S) (hs : s ∈ S) :
    k.isRecursive (rename s) = h.isRecursive s := by
  rw [Bool.eq_iff_iff, isRecursive_eq_true_iff, isRecursive_eq_true_iff, hc.references_eq hs]
  constructor
  · rintro ⟨t, ht, hlead⟩
    obtain ⟨u, hu, rfl⟩ := List.mem_map.mp ht
    have huS : u ∈ S := hc.closed s hs u hu
    obtain ⟨s', hs', heq⟩ := hc.exists_leads huS hlead
    have hs'S : s' ∈ S := hc.closed.mem_of_leads huS hs'
    obtain rfl : s' = s := hinj hs'S hs heq
    exact ⟨u, hu, hs'⟩
  · rintro ⟨t, ht, hlead⟩
    exact ⟨rename t, List.mem_map_of_mem ht, hc.leads (hc.closed s hs t ht) hlead⟩

end Carries

/-- Whether a type accepts a value depends only on the fields of the schemas that it leads to. -/
theorem accepts_eq_of_fields_eq {t : DataType Handle}
    (hsame : ∀ r ∈ t.references, ∀ s, h.Leads r s → k.fields s = h.fields s) (v : Value) :
    k.accepts t v = h.accepts t v := by
  have hcarries : h.Carries k id (h.ledFrom {r | r ∈ t.references}) := by
    refine carries_id (closed_ledFrom h _) ?_
    rintro s ⟨r, hr, hlead⟩
    exact hsame r hr s hlead
  have haccepts := hcarries.accepts_eq (fun r hr => subset_ledFrom h _ hr) v
  rw [t.mapReferences_id] at haccepts
  exact haccepts

/-! ## Roots and their images -/

/-- The schemas that some roots lead to and those that the images of the roots lead to correspond
one to one, with their field lists. -/
structure IsRenaming (h k : Heap) (roots : Set Handle) (rename : Handle → Handle) : Prop where
  bijOn : Set.BijOn rename (h.ledFrom roots) (k.ledFrom (rename '' roots))
  fields : ∀ s ∈ h.ledFrom roots,
    k.fields (rename s) = (h.fields s).map (Field.mapReferences rename)

variable {roots : Set Handle}

theorem IsRenaming.carries (hr : h.IsRenaming k roots rename) :
    h.Carries k rename (h.ledFrom roots) :=
  ⟨closed_ledFrom h roots, hr.fields⟩

/-- It is enough to look at a closed set that holds the roots. -/
theorem Carries.isRenaming (hc : h.Carries k rename S) (hinj : Set.InjOn rename S)
    (hroots : roots ⊆ S) : h.IsRenaming k roots rename := by
  have hsub : h.ledFrom roots ⊆ S := by
    rintro s ⟨r, hr, hlead⟩
    exact hc.closed.mem_of_leads (hroots hr) hlead
  refine ⟨⟨?_, hinj.mono hsub, ?_⟩, fun s hs => hc.fields s (hsub hs)⟩
  · rintro s ⟨r, hr, hlead⟩
    exact ⟨rename r, Set.mem_image_of_mem _ hr, hc.leads (hroots hr) hlead⟩
  · rintro t ⟨_, ⟨r, hr, rfl⟩, hlead⟩
    obtain ⟨u, hu, rfl⟩ := hc.exists_leads (hroots hr) hlead
    exact ⟨u, ⟨r, hr, hu⟩, rfl⟩

/-- **Places and names do not show.** If the schemas that some roots lead to are found again in
another heap, then the roots and all that they lead to are equal there if they were, and have the
same digests, cycles, texts, look-ups and values, whatever else the heaps hold and whatever the
schemas are called. -/
theorem IsRenaming.observations_eq (hr : h.IsRenaming k roots rename) :
    (∀ a ∈ h.ledFrom roots, ∀ b ∈ h.ledFrom roots,
      k.equalSchemas (rename a) (rename b) = h.equalSchemas a b) ∧
    (∀ a ∈ h.ledFrom roots,
      k.structuralHash (rename a) = h.structuralHash a ∧
      k.isRecursive (rename a) = h.isRecursive a ∧
      k.text (rename a) = h.text a ∧
      (∀ text, k.field? (rename a) text =
        (h.field? a text).map (Field.mapReferences rename)) ∧
      ∀ v, k.accepts (.record (rename a)) v = h.accepts (.record a) v) ∧
    ∀ t : DataType Handle, (∀ r ∈ t.references, r ∈ h.ledFrom roots) →
      ∀ v, k.accepts (t.mapReferences rename) v = h.accepts t v := by
  have hc := hr.carries
  refine ⟨?_, ?_, fun t ht v => hc.accepts_eq ht v⟩
  · intro a ha b hb
    exact equalSchemas_eq_of_bisimilar (hc.bisimilar ha) (hc.bisimilar hb)
  · intro a ha
    refine ⟨?_, hc.isRecursive_eq hr.bijOn.injOn ha, hc.text_eq ha, hc.field?_eq ha, ?_⟩
    · exact (digestSchema_eq_of_bisimilar nestedDepth (hc.bisimilar ha)).symm
    · intro v
      have href : ∀ r ∈ (DataType.record a).references, r ∈ h.ledFrom roots := by
        intro r hr
        obtain rfl : r = a := List.mem_singleton.mp hr
        exact ha
      exact hc.accepts_eq href v

def ownerFields (account : Handle) : List (Field Handle) :=
  [⟨"accounts", .array (.record account), none, .empty, true⟩]

def accountFields (owner currency : Handle) : List (Field Handle) :=
  [⟨"owner", .choice [.basic .long, .record owner], none, .ofList ["of"], false⟩,
    ⟨"currency", .record currency, some (.map []), .empty, true⟩]

def currencyFields : List (Field Handle) :=
  [⟨"code", .basic .string, none, .empty, false⟩]

/-- An owner and an account that lead to each other, and the currency of the account. -/
def bank : Heap :=
  ⟨#[⟨.empty, .indexed (ownerFields ⟨1⟩), none, none, none⟩,
    ⟨.empty, .indexed (accountFields ⟨0⟩ ⟨2⟩), none, none, none⟩,
    ⟨.empty, .indexed currencyFields, none, none, none⟩]⟩

/-- The same in the opposite order, called something, behind a schema of another kind. -/
def movedBank : Heap :=
  ⟨#[⟨.empty, .indexed (node ⟨0⟩), none, none, none⟩,
    ⟨.empty, .indexed currencyFields, some "currency", some "bank", none⟩,
    ⟨⟨some "account", some 7, none, none⟩, .indexed (accountFields ⟨3⟩ ⟨1⟩), none, none, none⟩,
    ⟨.empty, .indexed (ownerFields ⟨2⟩), none, none, some ⟨"owner", "text"⟩⟩]⟩

/-- The place of a schema of the one heap in the other. -/
def moved (s : Handle) : Handle :=
  ⟨3 - s.index⟩

theorem carries_moved : bank.Carries movedBank moved {s | s ∈ bank.handles} where
  closed := by
    have hclosed : ∀ s ∈ bank.handles, ∀ t ∈ bank.references s, t ∈ bank.handles := by decide
    exact hclosed
  fields s hs := by
    have hplace : s = ⟨0⟩ ∨ s = ⟨1⟩ ∨ s = ⟨2⟩ := by
      have hhandles : bank.handles = [⟨0⟩, ⟨1⟩, ⟨2⟩] := by decide
      simpa [hhandles] using hs
    rcases hplace with rfl | rfl | rfl <;> rfl

/-- The account leads back to its owner in the one heap, so its image does in the other. -/
theorem observations_bank :
    bank.IsRenaming movedBank {⟨0⟩} moved ∧ ⟨1⟩ ∈ bank.ledFrom {⟨0⟩} ∧
    movedBank.equalSchemas (moved ⟨1⟩) (moved ⟨0⟩) = false ∧
    movedBank.isRecursive (moved ⟨1⟩) = true ∧
    (movedBank.field? (moved ⟨1⟩) "of").isSome = true ∧
    movedBank.accepts (.record (moved ⟨1⟩)) (.map [("of", .int 5)]) = true := by
  have hinj : Set.InjOn moved {s | s ∈ bank.handles} := by
    have hdistinct : ∀ s ∈ bank.handles, ∀ t ∈ bank.handles, moved s = moved t → s = t := by
      decide
    intro s hs t ht heq
    exact hdistinct s hs t ht heq
  have hroots : ({⟨0⟩} : Set Handle) ⊆ {s | s ∈ bank.handles} := by
    rintro s rfl
    decide
  have hrenaming := carries_moved.isRenaming hinj hroots
  have howner : ⟨0⟩ ∈ bank.ledFrom {⟨0⟩} := subset_ledFrom bank _ rfl
  have haccount : ⟨1⟩ ∈ bank.ledFrom {⟨0⟩} := closed_ledFrom bank _ ⟨0⟩ howner ⟨1⟩ (by decide)
  obtain ⟨hequal, hobserved, -⟩ := hrenaming.observations_eq
  obtain ⟨-, hrecursive, -, hfield, haccepts⟩ := hobserved ⟨1⟩ haccount
  refine ⟨hrenaming, haccount, ?_, ?_, ?_, ?_⟩
  · rw [hequal ⟨1⟩ haccount ⟨0⟩ howner]
    cbv
  · rw [hrecursive]
    cbv
  · rw [hfield]
    cbv
  · rw [haccepts]
    cbv

end Heap

end SchemaGraph
