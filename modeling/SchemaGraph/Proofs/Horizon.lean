import Mathlib
import SchemaGraph.Proofs.Cycles
import SchemaGraph.Proofs.Mentions
import SchemaGraph.Proofs.Renaming
import SchemaGraph.Proofs.Unfolding

/-!
# How far a digest sees

A digest enters a fixed number of levels of nested schemas. So it cannot show what stands behind
more references than that, and of the schemas behind exactly that many it shows everything but which
schemas they refer to. A schema may be behind few references and behind many, along different paths
of a graph with cycles; the shortest path counts, because the digest goes along all of them.

The references are counted by `Heap.Path`, and arrays, maps and choices on the way do not count.
What a digest sees is compared level by level: a level passes from a schema to those that it refers
to, and `Heap.AgreeWithin` passes along with one reference less.

* `Heap.Path`, `Heap.AgreeWithin`: distances, and heaps that look the same up to a distance.
* `Heap.digestSchema_eq_of_agreeWithin`: the digest with a number of levels shows no more than the
  schemas up to that distance.
* `Command.subject?`, `Workspace.table_step`: the schema that a command is about, and the other
  schemas, whose fields stay.
* `structuralHash_within_two_references`: both for the digest with the fixed number of levels.
-/

namespace SchemaGraph

/-! ## Fields that look the same -/

namespace DataType

variable {ρ : Type}

theorem related_of_references {R : ρ → ρ → Prop} (t : DataType ρ)
    (h : ∀ r ∈ t.references, R r r) : Related R t t := by
  have hid := related_mapReferences (f := id) t h
  rwa [t.mapReferences_id] at hid

/-- Two types agree but for the schemas that they refer to. -/
def SameShape (t u : DataType ρ) : Prop :=
  t.Related (fun _ _ => True) u

end DataType

/-- Two lists of fields have the same names and related types, position by position. -/
def SameSlots (R : DataType Handle → DataType Handle → Prop) (as bs : List (Field Handle)) :
    Prop :=
  List.Forall₂ (fun a b => a.name = b.name ∧ R a.dataType b.dataType) as bs

theorem SameSlots.refl {R : DataType Handle → DataType Handle → Prop} (hR : ∀ t, R t t)
    (as : List (Field Handle)) : SameSlots R as as :=
  List.forall₂_same.mpr fun a _ => ⟨rfl, hR a.dataType⟩

theorem SameSlots.sameShape {as bs : List (Field Handle)} (h : SameSlots Eq as bs) :
    SameSlots DataType.SameShape as bs := by
  refine h.imp fun a b ⟨hname, htype⟩ => ⟨hname, ?_⟩
  rw [htype]
  exact .refl (fun _ => trivial) _

namespace Heap

variable {h k : Heap} {n : Nat} {s r t : Handle}

/-! ## Distances -/

/-- A path of a number of references leads from the one schema to the other. -/
inductive Path (h : Heap) : Nat → Handle → Handle → Prop
  | here (s : Handle) : Path h 0 s s
  | step {n : Nat} {s r t : Handle} (refers : h.RefersTo s r) (rest : Path h n r t) :
      Path h (n + 1) s t

theorem path_zero_iff : h.Path 0 s t ↔ s = t := by
  constructor
  · intro hpath
    cases hpath
    rfl
  · rintro rfl
    exact .here s

theorem path_succ_iff : h.Path (n + 1) s t ↔ ∃ r ∈ h.references s, h.Path n r t := by
  constructor
  · intro hpath
    cases hpath with
    | step refers rest => exact ⟨_, mem_references_iff.mpr refers, rest⟩
  · rintro ⟨r, hr, rest⟩
    exact .step (mem_references_iff.mp hr) rest

/-- Two heaps have the same names and types in all schemas that fewer than a number of references
lead to, and the same but for the references in those that this number of references leads to. -/
structure AgreeWithin (h k : Heap) (n : Nat) (s : Handle) : Prop where
  near : ∀ m < n, ∀ t, h.Path m s t → SameSlots Eq (h.fields t) (k.fields t)
  edge : ∀ t, h.Path n s t → SameSlots DataType.SameShape (h.fields t) (k.fields t)

theorem AgreeWithin.next (hagree : AgreeWithin h k (n + 1) s) (href : h.RefersTo s r) :
    AgreeWithin h k n r where
  near m hm t hpath := hagree.near (m + 1) (Nat.succ_lt_succ hm) t (.step href hpath)
  edge t hpath := hagree.edge t (.step href hpath)

/-- Whether a schema is at the edge is told by the shortest path to it. -/
theorem agreeWithin_of_isLeast
    (near : ∀ t, (∃ m < n, h.Path m s t) → SameSlots Eq (h.fields t) (k.fields t))
    (edge : ∀ t, IsLeast {m | h.Path m s t} n →
      SameSlots DataType.SameShape (h.fields t) (k.fields t)) : AgreeWithin h k n s where
  near m hm t hpath := near t ⟨m, hm, hpath⟩
  edge t hpath := by
    by_cases hshort : ∃ m < n, h.Path m s t
    · exact (near t hshort).sameShape
    · refine edge t ⟨hpath, ?_⟩
      intro m hm
      by_contra hlt
      exact hshort ⟨m, Nat.not_le.mp hlt, hm⟩

theorem agreeWithin_of_table_eq
    (same : ∀ t, (∃ m ≤ n, h.Path m s t) → k.table t = h.table t) : AgreeWithin h k n s := by
  have hslots : ∀ t, (∃ m ≤ n, h.Path m s t) → SameSlots Eq (h.fields t) (k.fields t) := by
    intro t hpath
    rw [fields, fields, same t hpath]
    exact .refl (fun _ => rfl) _
  constructor
  · intro m hm t hpath
    exact hslots t ⟨m, Nat.le_of_lt hm, hpath⟩
  · intro t hpath
    exact (hslots t ⟨n, Nat.le_refl n, hpath⟩).sameShape

/-! ## Digests -/

/-- The same types are related if the references of the first list are related to themselves. -/
theorem slots_related_of_references {R : Handle → Handle → Prop} {bs : List (Field Handle)}
    (hslots : SameSlots Eq (h.fields s) bs) (hR : ∀ r, h.RefersTo s r → R r r) :
    SameSlots (DataType.Related R) (h.fields s) bs := by
  have hinside : ∀ a ∈ h.fields s, a.dataType.Related R a.dataType := by
    intro a ha
    apply a.dataType.related_of_references
    intro r hr
    exact hR r ⟨a, ha, DataType.mem_references_iff.mp hr⟩
  refine ((List.forall₂_and_left _ _).mpr ⟨hinside, hslots⟩).imp ?_
  rintro a b ⟨hrelated, hname, htype⟩
  rw [htype] at hrelated ⊢
  exact ⟨hname, hrelated⟩

/-- Induction on the levels. With none left all references contribute the same; otherwise they
contribute the digests of the schemas one reference further, with one level less. -/
theorem digestSchema_eq_of_agreeWithin (hagree : AgreeWithin h k n s) :
    h.digestSchema n s = k.digestSchema n s := by
  induction n generalizing s with
  | zero =>
    apply Field.digests_eq_of_slots
    refine (hagree.edge s (.here s)).imp ?_
    rintro a b ⟨hname, hshape⟩
    exact ⟨hname, hshape.mono fun _ _ _ => rfl⟩
  | succ n ih =>
    have hnested : ∀ r, h.RefersTo s r → h.nestedDigest (n + 1) r = k.nestedDigest (n + 1) r := by
      intro r href
      have hdigest : h.digestSchema n r = k.digestSchema n r := ih (hagree.next href)
      exact congrArg (Fnv.mix (Fnv.ofString "RECORD")) hdigest
    have hslots : SameSlots Eq (h.fields s) (k.fields s) :=
      hagree.near 0 n.succ_pos s (.here s)
    apply Field.digests_eq_of_slots
    exact slots_related_of_references hslots hnested

theorem digestSchema_eq_of_table_eq
    (same : ∀ t, (∃ m ≤ n, h.Path m s t) → k.table t = h.table t) :
    k.digestSchema n s = h.digestSchema n s :=
  (digestSchema_eq_of_agreeWithin (agreeWithin_of_table_eq same)).symm

/-- The digest from a fresh budget of levels is the one with the fixed number of levels. -/
theorem freshDigest_takeSchema (h : Heap) (s : Handle) :
    freshDigest (h.takeSchema s) = h.structuralHash s := by
  rw [freshDigest, takeSchema_run, structuralHash]

end Heap

/-! ## Commands -/

/-- The name of the schema that a command is about. A command that makes a schema, or keeps a field
that no schema has yet, is about none. -/
def Command.subject? : Command → Option String
  | .create .. | .createWith .. | .keepBuilt .. | .keepRenamed .. => none
  | .share schema _ | .forget schema | .install schema _ | .remove schema _ _
  | .rename schema _ _ | .setName schema _ | .setNamespace schema _ | .snapshot schema _
  | .keepNamed schema _ _ | .keepAt schema _ _ => some schema

namespace Workspace

variable {w next : Workspace} {c : Command} {s r t : Handle} {n : Nat}

theorem table_of_added {i : Instance} (hr : r ∈ w.heap.handles) :
    (w.heap.add i).2.table r = w.heap.table r := by
  rw [Heap.table_add, if_neg (Nat.ne_of_lt (Heap.mem_handles.mp hr))]

/-- Only the table of the schema that a command is about can become another one. -/
theorem table_of_execute {reply : Reply} (h : w.execute c = .ok (reply, next))
    (hr : r ∈ w.heap.handles)
    (other : ∀ name t, c.subject? = some name → w.schemas[name]? = some t → r ≠ t) :
    next.heap.table r = w.heap.table r := by
  cases c with
  | create target identifier =>
    obtain rfl := congrArg Prod.snd (Except.ok.inj h)
    exact table_of_added hr
  | createWith target specs source identifier =>
    obtain ⟨fields, i, -, -, -, rfl⟩ := exists_of_execute_createWith h
    exact table_of_added hr
  | install schema specs =>
    obtain ⟨s, fields, table, hs, -, -, -, rfl⟩ := exists_of_execute_install h
    exact Heap.table_setTable_of_ne table (other schema s rfl hs)
  | remove schema name target =>
    rcases execute_remove_cases h with ⟨-, rfl⟩ | ⟨s, f, table, hs, -, -, rfl⟩
    · rfl
    · rw [heap_keepField]
      exact Heap.table_setTable_of_ne table (other schema s rfl hs)
  | rename schema name newName =>
    rcases execute_rename_cases h with ⟨-, rfl⟩ | ⟨s, table, hs, -, -, rfl⟩
    · rfl
    · exact Heap.table_setTable_of_ne table (other schema s rfl hs)
  | _ => exact table_of_keepsTables h rfl r

theorem table_step (c : Command) (hr : r ∈ w.heap.handles)
    (other : ∀ name t, c.subject? = some name → w.schemas[name]? = some t → r ≠ t) :
    (w.step c).2.heap.table r = w.heap.table r := by
  unfold step
  split
  next reply next h => exact table_of_execute h hr other
  next => rfl

theorem Reachable.refersTo_mem_handles (hw : w.Reachable) (hst : w.heap.RefersTo s t) :
    t ∈ w.heap.handles := by
  obtain ⟨f, hf, hoccurs⟩ := hst
  exact hw.mem_handles (.inType (.standing hf) (DataType.mem_references_iff.mpr hoccurs))

/-- A path does not leave the schemas that there are. -/
theorem Reachable.mem_handles_of_path (hw : w.Reachable) (hs : s ∈ w.heap.handles)
    (hpath : w.heap.Path n s t) : t ∈ w.heap.handles := by
  induction hpath with
  | here s => exact hs
  | step refers rest ih => exact ih (hw.refersTo_mem_handles refers)

theorem Reachable.digestSchema_step (hw : w.Reachable) (hs : s ∈ w.heap.handles) (c : Command)
    (far : ∀ name t, c.subject? = some name → w.schemas[name]? = some t →
      ∀ m ≤ n, ¬ w.heap.Path m s t) :
    (w.step c).2.heap.digestSchema n s = w.heap.digestSchema n s := by
  apply Heap.digestSchema_eq_of_table_eq
  rintro r ⟨m, hm, hpath⟩
  apply table_step c (hw.mem_handles_of_path hs hpath)
  rintro name _ hsubject hname rfl
  exact far name r hsubject hname m hm hpath

end Workspace

/-! ## The digest with the fixed number of levels -/

/-- **A digest sees two references far.** Two heaps in which the schemas that fewer than two
references lead to have the same names and types, and those behind two references have the same but
for the schemas that they refer to, give one digest. Whatever becomes of a schema that is further
away, the digest stays; so it does when a command is about such a schema. The digest is the one that
is taken from a budget of two levels. -/
theorem structuralHash_within_two_references :
    (∀ (h : Heap) (s : Handle), freshDigest (h.takeSchema s) = h.structuralHash s) ∧
    (∀ (h k : Heap) (s : Handle),
      (∀ t, (∃ n < 2, h.Path n s t) → SameSlots Eq (h.fields t) (k.fields t)) →
      (∀ t, IsLeast {n | h.Path n s t} 2 →
        SameSlots DataType.SameShape (h.fields t) (k.fields t)) →
      h.structuralHash s = k.structuralHash s) ∧
    (∀ (h : Heap) (s t : Handle) (change : Instance → Instance),
      (∀ n ≤ 2, ¬ h.Path n s t) →
      (h.update t change).structuralHash s = h.structuralHash s) ∧
    ∀ w : Workspace, w.Reachable → ∀ s ∈ w.heap.handles, ∀ c : Command,
      (∀ name t, c.subject? = some name → w.schemas[name]? = some t →
        ∀ n ≤ 2, ¬ w.heap.Path n s t) →
      (w.step c).2.heap.structuralHash s = w.heap.structuralHash s := by
  refine ⟨Heap.freshDigest_takeSchema, ?_, ?_, ?_⟩
  · intro h k s near edge
    exact Heap.digestSchema_eq_of_agreeWithin (Heap.agreeWithin_of_isLeast near edge)
  · intro h s t change far
    apply Heap.digestSchema_eq_of_table_eq
    rintro r ⟨n, hn, hpath⟩
    apply Heap.table_update_of_ne
    rintro rfl
    exact far n hn hpath
  · intro w hw s hs c far
    exact hw.digestSchema_step hs c far

def orderFields : List (Field Handle) :=
  [⟨"lines", .array (.record ⟨1⟩), none, .empty, false⟩]

def lineFields : List (Field Handle) :=
  [⟨"item", .choice [.basic .string, .map (.record ⟨2⟩)], none, .empty, true⟩]

def itemFields (parent : Handle) : List (Field Handle) :=
  [⟨"code", .basic .long, none, .empty, false⟩, ⟨"parent", .record parent, none, .empty, true⟩]

/-- An order with lines, and items that lead back to the lines. -/
def orders : Heap :=
  ⟨#[⟨.empty, .indexed orderFields, none, none, none⟩,
    ⟨.empty, .indexed lineFields, none, none, none⟩,
    ⟨.empty, .indexed (itemFields ⟨1⟩), none, none, none⟩]⟩

/-- The same in other words, with items that lead further. -/
def annotatedOrders : Heap :=
  ⟨#[⟨⟨some "order", some 4, none, none⟩,
      .indexed [⟨"lines", .array (.record ⟨1⟩), some (.array []), .ofList ["rows"], true⟩],
      none, none, none⟩,
    ⟨.empty, .indexed lineFields, some "line", some "sales", some ⟨"item", "text"⟩⟩,
    ⟨.empty, .indexed (itemFields ⟨3⟩), none, none, none⟩,
    ⟨.empty, .indexed [⟨"country", .basic .string, none, .empty, false⟩], none, none, none⟩]⟩

/-- Four schemas, of which each refers to the next one. -/
def ring : Workspace :=
  Workspace.empty.run
    [.create "d" .empty,
      .createWith "c" [.built ⟨"next", .record "d", none, .empty, true⟩] none .empty,
      .createWith "b" [.built ⟨"next", .array (.record "c"), none, .empty, true⟩] none .empty,
      .createWith "a" [.built ⟨"next", .map (.record "b"), none, .empty, true⟩] none .empty,
      .install "d" [.built ⟨"next", .record "a", none, .empty, true⟩]]

/-- From the first schema of the ring the last one is three references away. -/
theorem not_path_ring : ∀ n ≤ 2, ¬ ring.heap.Path n ⟨3⟩ ⟨0⟩ := by
  have hfirst : ring.heap.references ⟨3⟩ = [⟨2⟩] := by cbv
  have hsecond : ring.heap.references ⟨2⟩ = [⟨1⟩] := by cbv
  intro n hn
  interval_cases n <;> simp [Heap.path_succ_iff, Heap.path_zero_iff, hfirst, hsecond]

theorem structuralHash_orders :
    IsLeast {n | orders.Path n ⟨0⟩ ⟨2⟩} 2 ∧
    orders.structuralHash ⟨0⟩ = annotatedOrders.structuralHash ⟨0⟩ ∧
    ring.Reachable ∧ ring.heap.Path 3 ⟨3⟩ ⟨0⟩ ∧
    (∀ change, (ring.heap.update ⟨0⟩ change).structuralHash ⟨3⟩ = ring.heap.structuralHash ⟨3⟩) ∧
    ∀ specs, (ring.step (.install "d" specs)).2.heap.structuralHash ⟨3⟩ =
      ring.heap.structuralHash ⟨3⟩ := by
  obtain ⟨-, within, update, step⟩ := structuralHash_within_two_references
  have hfirst : orders.references ⟨0⟩ = [⟨1⟩] := rfl
  have hsecond : orders.references ⟨1⟩ = [⟨2⟩] := rfl
  have hedge : ∀ t, orders.Path 2 ⟨0⟩ t ↔ t = ⟨2⟩ := by
    simp [Heap.path_succ_iff, Heap.path_zero_iff, hfirst, hsecond, eq_comm]
  have hreachable : ring.Reachable := ⟨_, rfl⟩
  refine ⟨⟨(hedge _).mpr rfl, ?_⟩, within _ _ _ ?_ ?_, hreachable, ?_, ?_, ?_⟩
  · intro n hn
    by_contra hlt
    have hn : orders.Path n ⟨0⟩ ⟨2⟩ := hn
    interval_cases n <;> simp [Heap.path_succ_iff, Heap.path_zero_iff, hfirst] at hn
  · rintro t ⟨n, hn, hpath⟩
    interval_cases n
    · obtain rfl := Heap.path_zero_iff.mp hpath
      exact .cons ⟨rfl, rfl⟩ .nil
    · simp [Heap.path_succ_iff, Heap.path_zero_iff, hfirst] at hpath
      subst hpath
      exact .refl (fun _ => rfl) lineFields
  · rintro t ⟨hpath, -⟩
    obtain rfl := (hedge t).mp hpath
    exact .cons ⟨rfl, .basic .long⟩ (.cons ⟨rfl, .record trivial⟩ .nil)
  · have hthree : ring.heap.references ⟨3⟩ = [⟨2⟩] := by cbv
    have htwo : ring.heap.references ⟨2⟩ = [⟨1⟩] := by cbv
    have hone : ring.heap.references ⟨1⟩ = [⟨0⟩] := by cbv
    simp [Heap.path_succ_iff, Heap.path_zero_iff, hone, htwo, hthree]
  · exact fun change => update _ _ _ change not_path_ring
  · intro specs
    have hinside : ⟨3⟩ ∈ ring.heap.handles := by
      have hhandles : ring.heap.handles = [⟨0⟩, ⟨1⟩, ⟨2⟩, ⟨3⟩] := by cbv
      simp [hhandles]
    refine step ring hreachable _ hinside _ ?_
    intro name t hsubject hname
    obtain rfl : "d" = name := Option.some.inj hsubject
    have hd : ring.schemas["d"]? = some ⟨0⟩ := by cbv
    obtain rfl : ⟨0⟩ = t := Option.some.inj (hd.symm.trans hname)
    exact not_path_ring

-- What the fields are called two references away does show.
example : (orders.setTable ⟨2⟩ .empty).structuralHash ⟨0⟩ ≠ orders.structuralHash ⟨0⟩ := by
  cbv
  decide

end SchemaGraph
