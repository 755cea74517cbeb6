import Mathlib
import SchemaGraph.Heap.Printer
import SchemaGraph.Proofs.Congruence
import SchemaGraph.Proofs.Renaming
import SchemaGraph.Proofs.Tree

/-!
# Schemas that cannot be told apart

What a schema shows at once are its fields, with the nested schemas behind their types left open:
how many there are, their names, and the short forms of their types. A look-up leads to a field, and
from there to one of the schemas that its type refers to, where the next one can start.

Two fields that are found in equal schemas are equal by a comparison of their own, which knows
nothing of the one that found the schemas equal. So the schemas behind them are equal as well, and
no sequence of look-ups leads to a difference. Conversely, schemas that are not equal can be told
apart in this way.

* `Field.opened`, `Heap.front`: what shows at once.
* `DataType.Related.forall₂_references`, `DataType.Related.of_references`: related types refer to
  related schemas, place by place.
* `Heap.follow`: sequences of look-ups.
* `Heap.Bisimilar.follow_related`: equal schemas lead to equal schemas.
* `Heap.equalSchemas_iff_forall_follow`: equality is the absence of a difference that shows.
* `Heap.equal_schemas_look_alike`: look-up by look-up.
-/

namespace SchemaGraph

/-! ## References at corresponding places -/

section References

variable {ρ σ : Type} {R S : ρ → σ → Prop}

namespace DataType

mutual

theorem Related.forall₂_references {t : DataType ρ} {u : DataType σ} (h : Related R t u) :
    List.Forall₂ R t.references u.references := by
  cases h with
  | basic b => exact .nil
  | array h => exact h.forall₂_references
  | map h => exact h.forall₂_references
  | choice h => exact h.forall₂_references
  | record h => exact .cons h .nil

theorem RelatedAll.forall₂_references {ts : List (DataType ρ)} {us : List (DataType σ)}
    (h : RelatedAll R ts us) : List.Forall₂ R (referencesAll ts) (referencesAll us) := by
  cases h with
  | nil => exact .nil
  | cons head tail => exact List.rel_append head.forall₂_references tail.forall₂_references

end

mutual

/-- Types of one shape are related if the references at the same places are. -/
theorem Related.of_references {t : DataType ρ} {u : DataType σ} (h : Related S t u)
    (hrefs : List.Forall₂ R t.references u.references) : Related R t u := by
  cases h with
  | basic b => exact .basic b
  | array h => exact .array (h.of_references hrefs)
  | map h => exact .map (h.of_references hrefs)
  | choice h => exact .choice (h.of_references hrefs)
  | record h =>
    cases hrefs with
    | cons href _ => exact .record href

theorem RelatedAll.of_references {ts : List (DataType ρ)} {us : List (DataType σ)}
    (h : RelatedAll S ts us) (hrefs : List.Forall₂ R (referencesAll ts) (referencesAll us)) :
    RelatedAll R ts us := by
  cases h with
  | nil => exact .nil
  | @cons t u ts us head tail =>
    -- The first types have equally many references, so the lists come apart at the same place.
    have hlength : t.references.length = u.references.length := head.forall₂_references.length_eq
    have hhead := List.forall₂_take_append _ _ _ hrefs
    have htail := List.forall₂_drop_append _ _ _ hrefs
    rw [referencesAll, List.take_left' hlength] at hhead
    rw [referencesAll, List.drop_left' hlength] at htail
    exact .cons (head.of_references hhead) (tail.of_references htail)

end

end DataType

/-! ## What shows at once -/

namespace Field

/-- The field, with the schemas behind its type left open. -/
def opened (f : Field ρ) : Field Unit :=
  f.mapReferences fun _ => ()

theorem map_opened_eq_iff {fs : List (Field ρ)} {gs : List (Field σ)} :
    fs.map opened = gs.map opened ↔ List.Forall₂ (Related fun _ _ => () = ()) fs gs :=
  forall₂_related_iff_map_eq.symm

end Field

/-! ## What is found on both sides -/

theorem rel_bind {α β γ δ : Type} {T : α → β → Prop} {U : γ → δ → Prop} {x : Option α}
    {y : Option β} {next : α → Option γ} {next' : β → Option δ} (h : Option.Rel T x y)
    (hnext : ∀ a b, T a b → Option.Rel U (next a) (next' b)) :
    Option.Rel U (x.bind next) (y.bind next') := by
  cases h with
  | none => exact .none
  | some hab => exact hnext _ _ hab

theorem map_eq_of_rel {α β γ : Type} {T : α → β → Prop} {f : α → γ} {g : β → γ} {x : Option α}
    {y : Option β} (h : Option.Rel T x y) (hfg : ∀ a b, T a b → f a = g b) :
    x.map f = y.map g := by
  cases h with
  | none => rfl
  | some hab => exact congrArg some (hfg _ _ hab)

end References

namespace Heap

/-- What shows of a schema at once. -/
def front (h : Heap) (s : Handle) : List (Field Unit) :=
  (h.fields s).map Field.opened

theorem map_name_eq_front (h : Heap) (s : Handle) :
    (h.fields s).map Field.name = (h.front s).map Field.name := by
  rw [front, List.map_map]
  rfl

theorem map_text_eq_front (h : Heap) (s : Handle) :
    (h.fields s).map (fun f => f.dataType.text) =
      (h.front s).map fun f => f.dataType.text := by
  rw [front, List.map_map]
  refine List.map_congr_left fun f _ => ?_
  exact (f.dataType.text_mapReferences _).symm

theorem text_eq_front (h : Heap) (s : Handle) :
    h.text s = Text.enclosed "RecordSchema[" "]" ((h.front s).map Field.text) := by
  rw [text, front, List.map_map]
  congr 1
  refine List.map_congr_left fun f _ => ?_
  exact (f.text_mapReferences _).symm

/-! ## Sequences of look-ups -/

/-- How a field is looked up. -/
inductive FieldKey where
  /-- By a name or an alias. -/
  | text (text : String)
  | position (position : Nat)

def lookUp (h : Heap) (s : Handle) : FieldKey → Option (Field Handle)
  | .text text => h.field? s text
  | .position position => h.fieldAt? s position

/-- Look fields up one after another, each in a schema that the type of the one before refers to:
which one of these says the number next to the key. -/
def follow (h : Heap) : Handle → List (FieldKey × Nat) → Option Handle
  | s, [] => some s
  | s, (key, reference) :: path =>
    (h.lookUp s key).bind fun f => f.dataType.references[reference]?.bind fun r => h.follow r path

variable {h k : Heap} {a b : Handle}

theorem Bisimilar.front_eq (hab : Bisimilar h k a b) : h.front a = k.front b :=
  Field.map_opened_eq_iff.mpr (Field.forall₂_related_mono (fun _ _ _ => rfl) hab.fields)

theorem Bisimilar.lookUp_related (hab : Bisimilar h k a b) (key : FieldKey) :
    Option.Rel (Field.Related (Bisimilar h k)) (h.lookUp a key) (k.lookUp b key) := by
  cases key with
  | text text => exact hab.field?_related text
  | position position => exact rel_getElem?_of_forall₂ hab.fields position

theorem Bisimilar.follow_related (hab : Bisimilar h k a b) (path : List (FieldKey × Nat)) :
    Option.Rel (Bisimilar h k) (h.follow a path) (k.follow b path) := by
  induction path generalizing a b with
  | nil => exact .some hab
  | cons step path ih =>
    obtain ⟨key, reference⟩ := step
    refine rel_bind (hab.lookUp_related key) fun f g hfg => ?_
    have hrefs := rel_getElem?_of_forall₂ hfg.dataType.forall₂_references reference
    exact rel_bind hrefs fun _ _ => ih

/-- Two schemas that show the same at once are bisimilar if the schemas that they refer to are, and
these are reached by one more look-up. -/
theorem isBisimulation_front_eq (h k : Heap) :
    IsBisimulation h k fun a b =>
      ∀ path, (h.follow a path).map h.front = (k.follow b path).map k.front := by
  intro a b hab
  have hfront : h.front a = k.front b := Option.some.inj (hab [])
  have hshape := Field.map_opened_eq_iff.mp hfront
  refine forall₂_iff_getElem?.mpr ⟨hshape.length_eq, fun i f g hf hg => ?_⟩
  have hfg := (forall₂_iff_getElem?.mp hshape).2 i f g hf hg
  have hrefs := hfg.dataType.forall₂_references
  refine { hfg with dataType := hfg.dataType.of_references ?_ }
  refine forall₂_iff_getElem?.mpr ⟨hrefs.length_eq, fun j r s hr hs path => ?_⟩
  have hpath := hab ((.position i, j) :: path)
  simp only [follow, lookUp, fieldAt?, hf, hg, hr, hs, Option.bind_some] at hpath
  exact hpath

/-- **Equality is the absence of a difference that shows.** Two schemas are equal exactly if every
sequence of look-ups leads to schemas that show the same on both sides, or to none on either. -/
theorem equalSchemas_iff_forall_follow (h : Heap) (a b : Handle) :
    h.equalSchemas a b = true ↔
      ∀ path, (h.follow a path).map h.front = (h.follow b path).map h.front := by
  rw [equalSchemas_eq_true_iff]
  constructor
  · intro hab path
    exact map_eq_of_rel (hab.follow_related path) fun _ _ => Bisimilar.front_eq
  · exact (isBisimulation_front_eq h h).bisimilar

/-! ## Look-up by look-up -/

/-- **Equal schemas look alike.** They have one number of fields, the same names and the same short
forms, of their own and of their types. Whatever is looked up in them, by a text or at a position,
is found in both or in neither, and what is found is equal by a comparison of its own. So are the
schemas that any sequence of look-ups leads to. -/
theorem equal_schemas_look_alike (h : Heap) (a b : Handle) (hab : h.equalSchemas a b = true) :
    (h.fields a).length = (h.fields b).length ∧
    (h.fields a).map Field.name = (h.fields b).map Field.name ∧
    h.text a = h.text b ∧
    (h.fields a).map (fun f => f.dataType.text) = (h.fields b).map (fun f => f.dataType.text) ∧
    (∀ text, Option.Rel (fun f g => h.equalFields f g = true) (h.field? a text)
      (h.field? b text)) ∧
    (∀ text, Option.Rel (fun t u => h.equalTypes t u = true) (h.dataType? a text)
      (h.dataType? b text)) ∧
    (∀ i, Option.Rel (fun f g => h.equalFields f g = true) (h.fieldAt? a i) (h.fieldAt? b i)) ∧
    ∀ path, Option.Rel (fun r s => h.equalSchemas r s = true) (h.follow a path)
      (h.follow b path) := by
  simp only [equalSchemas_eq_true_iff, equalFields_eq_true_iff, equalTypes_eq_true_iff] at hab ⊢
  have hfront : h.front a = h.front b := hab.front_eq
  refine ⟨hab.fields.length_eq, ?_, ?_, ?_, fun text => hab.lookUp_related (.text text), ?_,
    fun i => hab.lookUp_related (.position i), hab.follow_related⟩
  · rw [map_name_eq_front, hfront, ← map_name_eq_front]
  · rw [text_eq_front, hfront, ← text_eq_front]
  · rw [map_text_eq_front, hfront, ← map_text_eq_front]
  · intro text
    rw [dataType?, dataType?, Option.map_eq_bind, Option.map_eq_bind]
    exact rel_bind (hab.lookUp_related (.text text)) fun f g hfg => .some hfg.dataType

/-- The list of nested nodes that a node of a ring has. -/
def nestedNodes (below : Handle) : Field Handle :=
  ⟨"below", .choice [.basic .boolean, .array (.record below)], none, .ofList ["b"], true⟩

/-- A ring of one node and one of two look alike, however far one goes round. -/
theorem alike_rings :
    rings.equalSchemas ⟨0⟩ ⟨1⟩ = true ∧
    rings.text ⟨0⟩ = rings.text ⟨1⟩ ∧
    rings.field? ⟨0⟩ "b" = some (nestedNodes ⟨0⟩) ∧
    rings.field? ⟨1⟩ "b" = some (nestedNodes ⟨2⟩) ∧
    rings.equalFields (nestedNodes ⟨0⟩) (nestedNodes ⟨2⟩) = true ∧
    ∃ s, rings.follow ⟨1⟩ [(.text "b", 0), (.position 1, 0), (.text "below", 0)] = some s ∧
      rings.equalSchemas ⟨0⟩ s = true := by
  have hrings : rings.equalSchemas ⟨0⟩ ⟨1⟩ = true := by cbv
  obtain ⟨-, -, htext, -, hfields, -, -, hfollow⟩ := equal_schemas_look_alike rings ⟨0⟩ ⟨1⟩ hrings
  have hleft : rings.field? ⟨0⟩ "b" = some (nestedNodes ⟨0⟩) := by cbv
  have hright : rings.field? ⟨1⟩ "b" = some (nestedNodes ⟨2⟩) := by cbv
  have hfound := hfields "b"
  rw [hleft, hright] at hfound
  have hreached := hfollow [(.text "b", 0), (.position 1, 0), (.text "below", 0)]
  have hfrom : rings.follow ⟨0⟩ [(.text "b", 0), (.position 1, 0), (.text "below", 0)] =
      some ⟨0⟩ := by cbv
  have hto : rings.follow ⟨1⟩ [(.text "b", 0), (.position 1, 0), (.text "below", 0)] =
      some ⟨2⟩ := by cbv
  rw [hfrom, hto] at hreached
  refine ⟨hrings, htext, hleft, hright, ?_, ⟨2⟩, hto, ?_⟩
  · cases hfound with
    | some hequal => exact hequal
  · cases hreached with
    | some hequal => exact hequal

end Heap

end SchemaGraph
