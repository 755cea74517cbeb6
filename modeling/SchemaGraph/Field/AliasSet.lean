/-!
# Alias sets

The further names of a field. They are a set: neither the order in which they are given nor how
often one is given matters. The set is kept as an increasing list, so equal sets are equal lists.

* `AliasSet.ofList`: the set of the texts of a list.
* `AliasSet.ext_mem`: sets with the same members are equal.
-/

namespace SchemaGraph

/-- A finite set of texts, as an increasing list. -/
structure AliasSet where
  toList : List String
  increasing : toList.Pairwise (· < ·)
deriving DecidableEq

namespace AliasSet

/-- Put a text at its place in an increasing list, unless it is there. -/
def place (a : String) : List String → List String
  | [] => [a]
  | b :: rest =>
    if a < b then a :: b :: rest
    else if a = b then b :: rest
    else b :: place a rest

theorem mem_place {a b : String} {l : List String} : b ∈ place a l ↔ b = a ∨ b ∈ l := by
  induction l with
  | nil => simp [place]
  | cons c rest ih =>
    simp only [place]
    split
    · simp
    · split
      next h => subst h; simp
      next => simp only [List.mem_cons, ih]; exact or_left_comm

theorem increasing_place (a : String) {l : List String} (h : l.Pairwise (· < ·)) :
    (place a l).Pairwise (· < ·) := by
  induction l with
  | nil => simp [place]
  | cons b rest ih =>
    obtain ⟨hb, hrest⟩ := List.pairwise_cons.mp h
    simp only [place]
    split
    next hab =>
      refine List.pairwise_cons.mpr ⟨fun c hc => ?_, h⟩
      rcases List.mem_cons.mp hc with rfl | hc
      · exact hab
      · exact String.lt_trans hab (hb c hc)
    next hab =>
      split
      · exact h
      next hne =>
        refine List.pairwise_cons.mpr ⟨fun c hc => ?_, ih hrest⟩
        rcases mem_place.mp hc with rfl | hc
        · exact Std.lt_of_le_of_ne (String.not_lt.mp hab) fun e => hne e.symm
        · exact hb c hc

def empty : AliasSet := ⟨[], .nil⟩

/-- Add one text. -/
def insert (s : AliasSet) (a : String) : AliasSet :=
  ⟨place a s.toList, increasing_place a s.increasing⟩

/-- The set of the texts of a list. -/
def ofList (l : List String) : AliasSet :=
  l.foldl insert empty

instance : Membership String AliasSet := ⟨fun s a => a ∈ s.toList⟩

theorem mem_toList {s : AliasSet} {a : String} : a ∈ s.toList ↔ a ∈ s := Iff.rfl

theorem mem_insert {s : AliasSet} {a b : String} : b ∈ s.insert a ↔ b = a ∨ b ∈ s :=
  mem_place

theorem mem_foldl_insert {l : List String} {s : AliasSet} {a : String} :
    a ∈ l.foldl insert s ↔ a ∈ l ∨ a ∈ s := by
  induction l generalizing s with
  | nil => simp
  | cons b l ih => rw [List.foldl_cons, ih, mem_insert, List.mem_cons, or_left_comm, or_assoc]

@[simp]
theorem mem_ofList {l : List String} {a : String} : a ∈ ofList l ↔ a ∈ l := by
  rw [ofList, mem_foldl_insert]
  exact or_iff_left (List.not_mem_nil (a := a))

/-- An increasing list is determined by its members. -/
private theorem eq_of_mem_iff {l m : List String} (hl : l.Pairwise (· < ·))
    (hm : m.Pairwise (· < ·)) (h : ∀ a, a ∈ l ↔ a ∈ m) : l = m := by
  induction l generalizing m with
  | nil => exact (List.eq_nil_iff_forall_not_mem.mpr fun a ha => by simpa using (h a).mpr ha).symm
  | cons a l ih =>
    cases m with
    | nil => exact absurd ((h a).mp (List.mem_cons_self ..)) List.not_mem_nil
    | cons b m =>
      obtain ⟨ha, hl⟩ := List.pairwise_cons.mp hl
      obtain ⟨hb, hm'⟩ := List.pairwise_cons.mp hm
      have hab : a = b := by
        rcases List.mem_cons.mp ((h a).mp (List.mem_cons_self ..)) with e | hba
        · exact e
        rcases List.mem_cons.mp ((h b).mpr (List.mem_cons_self ..)) with e | hab
        · exact e.symm
        exact absurd (String.lt_trans (ha b hab) (hb a hba)) (String.lt_irrefl a)
      subst hab
      congr 1
      refine ih hl hm' fun c => ⟨fun hc => ?_, fun hc => ?_⟩
      · rcases List.mem_cons.mp ((h c).mp (List.mem_cons_of_mem _ hc)) with rfl | hc'
        · exact absurd (ha c hc) (String.lt_irrefl c)
        · exact hc'
      · rcases List.mem_cons.mp ((h c).mpr (List.mem_cons_of_mem _ hc)) with rfl | hc'
        · exact absurd (hb c hc) (String.lt_irrefl c)
        · exact hc'

/-- Sets with the same members are equal. -/
theorem ext_mem {s t : AliasSet} (h : ∀ a, a ∈ s ↔ a ∈ t) : s = t := by
  cases s; cases t
  congr 1
  exact eq_of_mem_iff ‹_› ‹_› h

end AliasSet

end SchemaGraph
