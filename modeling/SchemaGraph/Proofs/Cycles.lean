import SchemaGraph.Proofs.Recursion
import SchemaGraph.Recursion.Steps

/-!
# Cycles through a schema

A schema refers to another if a type of one of its fields mentions it, at any depth of arrays, maps
and choices. It is recursive if it can be reached from itself along such references, by a path that
is not empty. A path may lead to a cycle that does not come back to the schema; that does not count.

The search puts the references of a schema on top of a stack, where a schema may be pending several
times. But only a schema that was not visited puts something on the stack, so whatever is looked at
is paid for by one reference of the heap.

* `DataType.Occurs`, `Heap.RefersTo`: what a type mentions, and what a schema refers to.
* `Heap.isRecursive_iff_transGen`: a schema is recursive exactly if a path leads back to it.
* `Heap.Turn`: what a step of the search can do.
* `Heap.Charted`: what every step keeps, so that the answer is right in whatever order the pending
  schemas are looked at.
* `Heap.capacity_look_lt`: what every step that is not the last one uses up.
* `Heap.isRecursive_iff_cycle`: both together.
-/

namespace SchemaGraph

variable {ρ : Type}

/-! ## References -/

namespace DataType

/-- A type mentions a reference, at any depth of arrays, maps and choices. -/
inductive Occurs (r : ρ) : DataType ρ → Prop
  | record : Occurs r (.record r)
  | array {element : DataType ρ} (inside : Occurs r element) : Occurs r (.array element)
  | map {value : DataType ρ} (inside : Occurs r value) : Occurs r (.map value)
  | choice {options : List (DataType ρ)} {option : DataType ρ} (mem : option ∈ options)
      (inside : Occurs r option) : Occurs r (.choice options)

mutual

theorem occurs_of_mem_references {r : ρ} : ∀ t : DataType ρ, r ∈ t.references → Occurs r t
  | .basic _, hr => absurd hr List.not_mem_nil
  | .array t, hr => .array (occurs_of_mem_references t hr)
  | .map t, hr => .map (occurs_of_mem_references t hr)
  | .choice ts, hr =>
    let ⟨_, ht, hoccurs⟩ := exists_occurs_of_mem_referencesAll ts hr
    .choice ht hoccurs
  | .record s, hr => by
    obtain rfl : r = s := List.mem_singleton.mp hr
    exact .record

theorem exists_occurs_of_mem_referencesAll {r : ρ} :
    ∀ ts : List (DataType ρ), r ∈ referencesAll ts → ∃ t ∈ ts, Occurs r t
  | [], hr => absurd hr List.not_mem_nil
  | t :: ts, hr => by
    rcases List.mem_append.mp hr with hr | hr
    · exact ⟨t, List.mem_cons_self, occurs_of_mem_references t hr⟩
    · obtain ⟨u, hu, hoccurs⟩ := exists_occurs_of_mem_referencesAll ts hr
      exact ⟨u, List.mem_cons_of_mem _ hu, hoccurs⟩

end

theorem mem_references_iff {r : ρ} {t : DataType ρ} : r ∈ t.references ↔ Occurs r t := by
  constructor
  · exact occurs_of_mem_references t
  · intro hoccurs
    induction hoccurs with
    | record => exact List.mem_cons_self
    | array _ ih => exact ih
    | map _ ih => exact ih
    | @choice options option mem _ ih =>
      rw [references, referencesAll_eq_flatMap]
      exact List.mem_flatMap.mpr ⟨option, mem, ih⟩

end DataType

/-- One member less takes away at least what it leads to. -/
theorem length_flatMap_remaining_cons {α β : Type} [DecidableEq α] {domain seen : List α} {a : α}
    (f : α → List β) (mem : a ∈ domain) (new : a ∉ seen) :
    ((remaining domain (a :: seen)).flatMap f).length + (f a).length ≤
      ((remaining domain seen).flatMap f).length := by
  have hmem : a ∈ remaining domain seen := mem_remaining.mpr ⟨mem, new⟩
  rw [remaining_cons]
  generalize remaining domain seen = left at hmem ⊢
  induction left with
  | nil => cases hmem
  | cons b rest ih =>
    by_cases hba : b = a
    · subst hba
      have hsub : ((rest.filter fun c => c ≠ b).flatMap f).length ≤ (rest.flatMap f).length :=
        (List.filter_sublist.flatMap f).length_le
      simp only [List.filter_cons, ne_eq, not_true_eq_false, decide_false, Bool.false_eq_true,
        if_false, List.flatMap_cons, List.length_append] at hsub ⊢
      omega
    · have hrest := ih ((List.mem_cons.mp hmem).resolve_left fun hab => hba hab.symm)
      simp only [List.filter_cons, ne_eq, hba, not_false_eq_true, decide_true, if_true,
        List.flatMap_cons, List.length_append] at hrest ⊢
      omega

namespace Heap

variable {h : Heap} {s t target : Handle}

/-- A type of one of the fields of the one schema mentions the other. -/
def RefersTo (h : Heap) (s t : Handle) : Prop :=
  ∃ f ∈ h.fields s, DataType.Occurs t f.dataType

theorem mem_references_iff : t ∈ h.references s ↔ h.RefersTo s t := by
  simp only [references, List.mem_flatMap, DataType.mem_references_iff, RefersTo]

/-- A schema is recursive exactly if a path of references, which is not empty, leads back to it. -/
theorem isRecursive_iff_transGen : h.isRecursive s = true ↔ Relation.TransGen h.RefersTo s s := by
  have hleads : h.Leads = Relation.ReflTransGen h.RefersTo := by
    unfold Leads
    simp only [mem_references_iff]
  rw [isRecursive_eq_true_iff, hleads, Relation.TransGen.head'_iff]
  simp only [mem_references_iff]

/-! ## The search step by step -/

theorem cycleSearch_succ (h : Heap) (s : Handle) (n : Nat) :
    h.cycleSearch s (n + 1) = h.look s (h.cycleSearch s n) :=
  Function.iterate_succ_apply' ..

variable {c : Search}

/-- What a step can do. -/
inductive Turn (h : Heap) (target : Handle) (c : Search) : Search → Prop
  /-- The answer is known. -/
  | stay {answer : Bool} (known : c.answer? target = some answer) : Turn h target c c
  /-- The schema was visited before. -/
  | skip {s pending} (next : c.pending = s :: pending) (seen : s ∈ c.visited) :
      Turn h target c ⟨c.visited, pending⟩
  /-- The search goes on from the schema. -/
  | expand {s pending} (next : c.pending = s :: pending) (other : s ≠ target)
      (new : s ∉ c.visited) :
      Turn h target c ⟨s :: c.visited, (h.references s).reverse ++ pending⟩

theorem turn_look (h : Heap) (target : Handle) (c : Search) :
    Turn h target c (h.look target c) := by
  obtain ⟨visited, pending⟩ := c
  cases pending with
  | nil => exact .stay rfl
  | cons s pending =>
    unfold look
    dsimp only
    split
    next htarget => exact .stay (if_pos htarget)
    next hother =>
      split
      next hseen => exact .skip rfl hseen
      next hnew => exact .expand rfl hother hnew

/-! ## The answer is right -/

/-- What a search for a cycle through a schema knows: it has not come back to the schema, all that
is pending can be reached from the schema, and no reference of the schema or of a visited one has
been left out. -/
structure Charted (h : Heap) (target : Handle) (c : Search) : Prop where
  not_mem : target ∉ c.visited
  reached : ∀ t ∈ c.pending, Relation.TransGen h.RefersTo target t
  noted : ∀ s, s = target ∨ s ∈ c.visited →
    ∀ t, h.RefersTo s t → t ∈ c.visited ∨ t ∈ c.pending

theorem charted_start (h : Heap) (s : Handle) : Charted h s ⟨[], (h.references s).reverse⟩ where
  not_mem := List.not_mem_nil
  reached _ ht := .single (mem_references_iff.mp (List.mem_reverse.mp ht))
  noted r hr t href := by
    obtain rfl : r = s := hr.resolve_right List.not_mem_nil
    exact .inr (List.mem_reverse.mpr (mem_references_iff.mpr href))

theorem Charted.look (hc : Charted h target c) : Charted h target (h.look target c) := by
  have hturn := turn_look h target c
  generalize h.look target c = d at hturn ⊢
  cases hturn with
  | stay known => exact hc
  | @skip s pending next seen =>
    refine ⟨hc.not_mem, fun t ht => hc.reached t (next ▸ List.mem_cons_of_mem _ ht), ?_⟩
    intro r hr t href
    rcases hc.noted r hr t href with ht | ht
    · exact .inl ht
    · rw [next] at ht
      rcases List.mem_cons.mp ht with rfl | ht
      · exact .inl seen
      · exact .inr ht
  | @expand s pending next other new =>
    have hs : Relation.TransGen h.RefersTo target s := hc.reached s (next ▸ List.mem_cons_self)
    constructor
    · intro hmem
      rcases List.mem_cons.mp hmem with heq | hmem
      · exact other heq.symm
      · exact hc.not_mem hmem
    · intro t ht
      rcases List.mem_append.mp ht with ht | ht
      · exact hs.tail (mem_references_iff.mp (List.mem_reverse.mp ht))
      · exact hc.reached t (next ▸ List.mem_cons_of_mem _ ht)
    · intro r hr t href
      have hcases : r = s ∨ (r = target ∨ r ∈ c.visited) := by
        rcases hr with hr | hr
        · exact .inr (.inl hr)
        · rcases List.mem_cons.mp hr with hr | hr
          · exact .inl hr
          · exact .inr (.inr hr)
      rcases hcases with rfl | hr
      · exact .inr (List.mem_append_left _ (List.mem_reverse.mpr (mem_references_iff.mpr href)))
      · rcases hc.noted r hr t href with ht | ht
        · exact .inl (List.mem_cons_of_mem _ ht)
        · rw [next] at ht
          rcases List.mem_cons.mp ht with rfl | ht
          · exact .inl List.mem_cons_self
          · exact .inr (List.mem_append_right _ ht)

theorem charted_cycleSearch (h : Heap) (s : Handle) (n : Nat) :
    Charted h s (h.cycleSearch s n) := by
  induction n with
  | zero => exact charted_start h s
  | succ n ih =>
    rw [cycleSearch_succ]
    exact ih.look

/-- With nothing pending, every path from the schema stays among the visited ones. -/
theorem Charted.not_transGen (hc : Charted h target c) (hdone : c.pending = []) :
    ¬ Relation.TransGen h.RefersTo target target := by
  have hnoted : ∀ s, s = target ∨ s ∈ c.visited → ∀ t, h.RefersTo s t → t ∈ c.visited := by
    intro s hs t href
    rcases hc.noted s hs t href with ht | ht
    · exact ht
    · rw [hdone] at ht
      cases ht
  have hvisited : ∀ t, Relation.TransGen h.RefersTo target t → t ∈ c.visited := by
    intro t hpath
    induction hpath with
    | single href => exact hnoted _ (.inl rfl) _ href
    | tail _ href ih => exact hnoted _ (.inr ih) _ href
  exact fun hcycle => hc.not_mem (hvisited target hcycle)

theorem Charted.answer?_eq (hc : Charted h target c) {answer : Bool}
    (known : c.answer? target = some answer) : answer = h.isRecursive target := by
  unfold Search.answer? at known
  split at known
  next hdone =>
    obtain rfl : false = answer := Option.some.inj known
    refine (Bool.eq_false_of_not_eq_true fun hrecursive => ?_).symm
    exact hc.not_transGen hdone (isRecursive_iff_transGen.mp hrecursive)
  next s pending hnext =>
    split at known
    next htarget =>
      obtain rfl : true = answer := Option.some.inj known
      subst htarget
      have hcycle := hc.reached s (hnext ▸ List.mem_cons_self)
      exact (isRecursive_iff_transGen.mpr hcycle).symm
    next => cases known

/-! ## The search ends -/

/-- How many schemas there are still to look at: those that are pending, and the references of all
that have not been visited, apart from the schema that the search started from. -/
def capacity (h : Heap) (target : Handle) (c : Search) : Nat :=
  c.pending.length +
    ((remaining h.handles (c.visited ++ [target])).flatMap h.references).length

theorem capacity_look_lt (unknown : c.answer? target = none) :
    h.capacity target (h.look target c) < h.capacity target c := by
  have hturn := turn_look h target c
  generalize h.look target c = d at hturn ⊢
  cases hturn with
  | stay known =>
    rw [unknown] at known
    cases known
  | skip next seen =>
    simp only [capacity, next, List.length_cons]
    omega
  | @expand s pending next other new =>
    simp only [capacity, next, List.length_cons, List.length_append, List.length_reverse,
      List.cons_append]
    by_cases inside : s ∈ h.handles
    · have hnew : s ∉ c.visited ++ [target] := by
        rw [List.mem_append, List.mem_singleton]
        exact fun hmem => hmem.elim new other
      have hpaid := length_flatMap_remaining_cons h.references inside hnew
      omega
    · rw [remaining_cons_of_not_mem inside, references_eq_nil inside, List.length_nil]
      omega

/-- The search starts with no more to look at than the heap has references. -/
theorem capacity_start_le (h : Heap) (s : Handle) :
    h.capacity s ⟨[], (h.references s).reverse⟩ ≤ (h.handles.flatMap h.references).length := by
  have hall : remaining h.handles [] = h.handles :=
    List.filter_eq_self.mpr fun _ _ => by simp
  unfold capacity
  rw [List.length_reverse, List.nil_append]
  by_cases inside : s ∈ h.handles
  · have hpaid := length_flatMap_remaining_cons h.references inside List.not_mem_nil
    rw [hall] at hpaid
    omega
  · rw [remaining_cons_of_not_mem inside, hall, references_eq_nil inside, List.length_nil]
    omega

theorem exists_answer? (h : Heap) (target : Handle) (c : Search) :
    ∃ n ≤ h.capacity target c, ∃ answer, ((h.look target)^[n] c).answer? target = some answer := by
  cases hanswer : c.answer? target with
  | some answer => exact ⟨0, Nat.zero_le _, answer, hanswer⟩
  | none =>
    have hless := capacity_look_lt (h := h) hanswer
    obtain ⟨n, hn, answer, hlast⟩ := exists_answer? h target (h.look target c)
    refine ⟨n + 1, by omega, answer, ?_⟩
    rwa [Function.iterate_succ_apply]
termination_by h.capacity target c

/-- **Recursive schemas are those on a cycle.** A schema is recursive exactly if a path of
references, which is not empty, leads from it back to it. The search that looks at the pending
schemas from the top of a stack finds this out, and before it does it looks at no more schemas than
the heap has references. -/
theorem isRecursive_iff_cycle (h : Heap) (s : Handle) :
    (h.isRecursive s = true ↔ Relation.TransGen h.RefersTo s s) ∧
    ∃ n ≤ (h.handles.flatMap h.references).length,
      (h.cycleSearch s n).answer? s = some (h.isRecursive s) := by
  refine ⟨isRecursive_iff_transGen, ?_⟩
  obtain ⟨n, hn, answer, hanswer⟩ := exists_answer? h s ⟨[], (h.references s).reverse⟩
  have hanswer : (h.cycleSearch s n).answer? s = some answer := hanswer
  obtain rfl := (charted_cycleSearch h s n).answer?_eq hanswer
  exact ⟨n, Nat.le_trans hn (capacity_start_le h s), hanswer⟩

/-- A schema in front of a loop of two, which it refers to twice. -/
def entrance : Heap :=
  ⟨#[⟨.empty, .indexed [⟨"one", .array (.record ⟨1⟩), none, .empty, true⟩,
      ⟨"other", .choice [.basic .int, .map (.record ⟨2⟩), .record ⟨1⟩], none, .empty, true⟩],
      none, none, none⟩,
    ⟨.empty, .indexed [⟨"next", .record ⟨2⟩, none, .empty, true⟩], none, none, none⟩,
    ⟨.empty, .indexed [⟨"next", .map (.record ⟨1⟩), none, .empty, true⟩], none, none, none⟩]⟩

-- The loop is found from its own members only.
example : [⟨0⟩, ⟨1⟩, ⟨2⟩].map entrance.isRecursive = [false, true, true] := by cbv

end Heap

end SchemaGraph
