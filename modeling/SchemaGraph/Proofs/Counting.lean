import SchemaGraph.Digest.Counter

/-!
# What a counter does to digests

A record type is the one place where the counter is touched. With no level left it is not; otherwise
the fields behind it are digested with one level less, which is where the induction goes on, and the
counter is put back. All else passes the counter on as it is. So it is enough to know what the
operations on the counter do, and what computations do that are composed of others.

* `Counter.Semantics`: what computations on a counter come to.
* `Counter.Semantics.takeType`, `Counter.Semantics.takeFields`, `Counter.Semantics.takeSubject`: all
  things come to their digests if references do.
* `Counter.Semantics.enterWith`: references do.
* `Counter.Semantics.mapM`: computations that leave the counter as it was take no notice of each
  other.
-/

namespace SchemaGraph

/-- What computations on a counter come to: the operations do what they are for, and what comes
later goes on from where the counter was left. -/
structure Counter.Semantics {m : Type → Type} [Monad m] (counter : Counter m) where
  /-- With a number of levels, a computation comes to a value and leaves a number of levels. -/
  Gives {α : Type} (x : m α) (levels : Nat) (a : α) (left : Nat) : Prop
  pure {α : Type} (a : α) (levels : Nat) : Gives (pure a) levels a levels
  bind {α β : Type} {x : m α} {next : α → m β} {a : α} {b : β} {levels left last : Nat} :
    Gives x levels a left → Gives (next a) left b last → Gives (x >>= next) levels b last
  read (levels : Nat) : Gives counter.read levels levels levels
  lower (levels : Nat) : Gives counter.lower (levels + 1) () levels
  raise (levels : Nat) : Gives counter.raise levels () (levels + 1)

namespace Counter.Semantics

variable {m : Type → Type} [Monad m] {counter : Counter m} (S : counter.Semantics)

theorem map {α β : Type} (f : α → β) {x : m α} {levels left : Nat} {a : α}
    (hx : S.Gives x levels a left) : S.Gives (do return f (← x)) levels (f a) left :=
  S.bind hx (S.pure (f a) left)

theorem mapM [LawfulMonad m] {α β : Type} {f : β → m α} {g : β → α} {levels : Nat}
    (hf : ∀ b, S.Gives (f b) levels (g b) levels) (bs : List β) :
    S.Gives (bs.mapM f) levels (bs.map g) levels := by
  induction bs with
  | nil => exact S.pure [] levels
  | cons b bs ih =>
    rw [List.mapM_cons, List.map_cons]
    exact S.bind (hf b) (S.map (g b :: ·) ih)

section References

variable {ρ : Type} {enter : ρ → m UInt64} {g : ρ → UInt64} {levels : Nat}

mutual

theorem takeType (henter : ∀ s, S.Gives (enter s) levels (g s) levels) :
    ∀ t : DataType ρ, S.Gives (t.takeDigest enter) levels (t.digest g) levels
  | .basic b => by
    rw [DataType.takeDigest]
    exact S.pure b.digest levels
  | .array t => by
    rw [DataType.takeDigest]
    exact S.map (Fnv.mix (Fnv.ofString "ARRAY")) (takeType henter t)
  | .map t => by
    rw [DataType.takeDigest]
    exact S.map (Fnv.mix (Fnv.ofString "MAP")) (takeType henter t)
  | .choice ts => by
    rw [DataType.takeDigest]
    exact takeTypes henter (Fnv.ofString "CHOICE") ts
  | .record s => by
    rw [DataType.takeDigest]
    exact henter s

theorem takeTypes (henter : ∀ s, S.Gives (enter s) levels (g s) levels) (state : UInt64) :
    ∀ ts : List (DataType ρ), S.Gives (DataType.takeDigests enter state ts) levels
      (DataType.digestAll g state ts) levels
  | [] => by
    rw [DataType.takeDigests]
    exact S.pure state levels
  | t :: ts => by
    rw [DataType.takeDigests]
    exact S.bind (takeType henter t) (takeTypes henter _ ts)

end

theorem takeFields (henter : ∀ s, S.Gives (enter s) levels (g s) levels) (state : UInt64)
    (fields : List (Field ρ)) :
    S.Gives (Field.takeDigests enter state fields) levels (Field.absorbAll g state fields)
      levels := by
  induction fields generalizing state with
  | nil => exact S.pure state levels
  | cons f fields ih => exact S.bind (S.takeType henter f.dataType) (ih _)

end References

/-- The digest of a subject, if record types come to what they contribute. -/
theorem takeSubject {h : Heap} {enter : Handle → m UInt64} {levels : Nat}
    (henter : ∀ s, S.Gives (enter s) levels (h.nestedDigest levels s) levels) (subject : Subject) :
    S.Gives (h.takeDigest enter subject) levels (h.digest levels subject) levels := by
  cases subject with
  | schema s => exact S.takeFields henter fieldListSeed (h.fields s)
  | field f => exact S.map (Fnv.mix (Fnv.ofString f.name)) (S.takeType henter f.dataType)
  | type t => exact S.takeType henter t

/-- Induction on the depth: the fields behind a record type are digested with one level less, one
schema deeper. So what was foreseen is exceeded with no more levels than are left then. -/
theorem enterWith (h : Heap) {depth levels : Nat}
    (hbeyond : depth ≤ levels → ∀ s, S.Gives counter.beyond (levels - depth)
      (h.nestedDigest (levels - depth) s) (levels - depth))
    (s : Handle) :
    S.Gives (h.enterWith counter depth s) levels (h.nestedDigest levels s) levels := by
  induction depth generalizing levels s with
  | zero => exact hbeyond (Nat.zero_le levels) s
  | succ depth ih =>
    refine S.bind (S.read levels) ?_
    cases levels with
    | zero =>
      rw [if_pos rfl]
      exact S.pure nestedSentinel 0
    | succ levels =>
      have henter : ∀ t, S.Gives (h.enterWith counter depth t) levels
          (h.nestedDigest levels t) levels := by
        refine fun t => ih (fun hle => ?_) t
        have hless := hbeyond (Nat.succ_le_succ hle)
        rwa [Nat.add_sub_add_right] at hless
      have hfields := S.takeFields henter fieldListSeed (h.fields s)
      rw [if_neg (Nat.succ_ne_zero levels)]
      exact S.bind (S.lower levels)
        (S.bind hfields (S.bind (S.raise levels) (S.pure _ _)))

end Counter.Semantics

end SchemaGraph
