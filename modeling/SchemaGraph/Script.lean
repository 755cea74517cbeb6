/-!
# Programs on a state

A program looks at a state, which may fail, and writes to it, which may not. What it has written
stays written when it fails afterwards.

* `Script`: programs on a state.
* `Script.look`, `Script.write`, `Script.update`: what they are made of.
* `Script.start`: what a program yields, and the state that it leaves behind.
* `Script.start_bind_eq_settle`: looks come before writes, one by one.
-/

namespace SchemaGraph

/-- A program on a state in `σ` that may fail with an error in `ε`. -/
abbrev Script (ε σ : Type) :=
  ExceptT ε (StateM σ)

namespace Script

variable {ε σ α β : Type}

/-- What a program yields, and the state that it leaves behind. -/
def start (x : Script ε σ α) (s : σ) : Except ε α × σ :=
  x.run.run s

/-- Look at the state; fail if something is at fault. -/
def look (read : σ → Except ε α) : Script ε σ α :=
  ExceptT.mk (read <$> get)

def write (change : σ → σ) : Script ε σ Unit :=
  modify change

/-- Change the state, or leave it as it is and fail. -/
def update (change : σ → Except ε σ) : Script ε σ Unit := do
  let next ← look change
  write fun _ => next

theorem start_look (read : σ → Except ε α) (s : σ) : (look read).start s = (read s, s) := rfl

theorem start_bind (x : Script ε σ α) (rest : α → Script ε σ β) (s : σ) :
    (x >>= rest).start s =
      match x.start s with
      | (.ok a, next) => (rest a).start next
      | (.error e, next) => (.error e, next) := by
  unfold start
  rw [ExceptT.run_bind, StateT.run_bind]
  obtain ⟨result, next⟩ := x.run.run s
  cases result <;> rfl

theorem start_look_bind (read : σ → α) (rest : α → Script ε σ β) (s : σ) :
    (look (fun s => .ok (read s)) >>= rest).start s = (rest (read s)).start s := rfl

theorem start_update (change : σ → Except ε σ) (s : σ) :
    (update change).start s =
      match change s with
      | .ok next => (.ok (), next)
      | .error e => (.error e, s) := by
  unfold update
  rw [start_bind, start_look]
  cases change s <;> rfl

/-- An outcome, and the state that it leaves behind if a failure leaves it as it was. -/
def settle (s : σ) (outcome : Except ε (α × σ)) : Except ε α × σ :=
  match outcome with
  | .ok (a, next) => (.ok a, next)
  | .error e => (.error e, s)

/-- A look that fails leaves the state as it was, so that the rest of the program need only be
compared where the look succeeds. -/
theorem start_bind_eq_settle {x : Script ε σ α} {found : Except ε α} {rest : α → Script ε σ β}
    {s : σ} {outcome : α → Except ε (β × σ)} (hx : x.start s = (found, s))
    (hrest : ∀ a, (rest a).start s = settle s (outcome a)) :
    (x >>= rest).start s = settle s (found >>= outcome) := by
  rw [start_bind, hx]
  cases found with
  | error e => rfl
  | ok a => exact hrest a

end Script

end SchemaGraph
