/-!
# Exploring a finite set

Traversals of a heap keep a list of what they have seen, and come to an end because only finitely
much can be seen: what remains gets less with each new member.

* `remaining`: the members of a domain that have not been seen.
* `length_remaining_lt`: seeing a new member leaves less.
* `remaining_cons_of_not_mem`: seeing something outside the domain leaves as much as before.
-/

namespace SchemaGraph

variable {α : Type} [DecidableEq α]

/-- The members of a domain that have not been seen. -/
def remaining (domain seen : List α) : List α :=
  domain.filter fun a => a ∉ seen

theorem mem_remaining {domain seen : List α} {a : α} :
    a ∈ remaining domain seen ↔ a ∈ domain ∧ a ∉ seen := by
  simp [remaining]

theorem remaining_cons (domain seen : List α) (a : α) :
    remaining domain (a :: seen) = (remaining domain seen).filter fun b => b ≠ a := by
  simp [remaining, List.filter_filter]

theorem length_remaining_lt {domain seen : List α} {a : α} (mem : a ∈ domain)
    (new : a ∉ seen) : (remaining domain (a :: seen)).length < (remaining domain seen).length := by
  rw [remaining_cons]
  exact List.length_filter_lt_length_iff_exists.mpr
    ⟨a, mem_remaining.mpr ⟨mem, new⟩, by simp⟩

theorem remaining_cons_of_not_mem {domain seen : List α} {a : α} (mem : a ∉ domain) :
    remaining domain (a :: seen) = remaining domain seen := by
  rw [remaining_cons]
  refine List.filter_eq_self.mpr fun b hb => ?_
  have : b ≠ a := fun e => mem (e ▸ (mem_remaining.mp hb).1)
  simpa using this

end SchemaGraph
