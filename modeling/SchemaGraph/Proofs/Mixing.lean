import Mathlib
import SchemaGraph.Digest.Basic

/-!
# Mixing words into a hash

A step of the hash xors a byte into the lowest byte of the state and multiplies the state by an odd
number modulo 2^64. Both can be undone, so a word that is mixed in loses nothing of the state.

Nor does the state have much influence on what a byte does to it. What is xored in changes the
state by a difference of two bytes, and which one it is depends on the lowest byte of the state
only. So the bytes that are absorbed add something to a multiple of the state, their drift, and all
that it takes to know the drift is the lowest byte of the state that they start from. Two words have
the same effect in both orders when their bytes have the same drift in both orders, which happens.

* `Fnv.mix_bijective`: mixing a word in can be undone.
* `Fnv.drift`, `Fnv.absorbAll_eq`: what bytes add to a state.
* `Fnv.mix_mix_byte_ne`: words of one byte show their order.
* `Fnv.mix_order`: when words show their order.
* `Fnv.mix_mix_comm_of_toUInt8_eq`, `Fnv.order_not_shown`: two words that do not.
-/

namespace SchemaGraph.Fnv

open scoped UInt64.CommRing

/-! ## Steps that can be undone -/

/-- The inverse of the prime modulo 2^64. -/
def primeInverse : UInt64 := 0xce965057aff6957b

theorem prime_mul_primeInverse : prime * primeInverse = 1 := rfl

theorem mul_prime_bijective : Function.Bijective fun state : UInt64 => state * prime := by
  refine Function.bijective_iff_has_inverse.mpr ⟨fun state => state * primeInverse, ?_, ?_⟩
  · intro state
    change state * prime * primeInverse = state
    rw [mul_assoc, prime_mul_primeInverse, mul_one]
  · intro state
    change state * primeInverse * prime = state
    rw [mul_assoc, mul_comm primeInverse, prime_mul_primeInverse, mul_one]

theorem xor_bijective (word : UInt64) :
    Function.Bijective fun state : UInt64 => state ^^^ word := by
  have hself : Function.Involutive fun state : UInt64 => state ^^^ word := by
    intro state
    change state ^^^ word ^^^ word = state
    rw [UInt64.xor_assoc, UInt64.xor_self, UInt64.xor_zero]
  exact hself.bijective

theorem absorb_bijective (byte : UInt8) : Function.Bijective fun state => absorb state byte :=
  mul_prime_bijective.comp (xor_bijective byte.toUInt64)

theorem absorbAll_bijective (bytes : List UInt8) :
    Function.Bijective fun state => absorbAll state bytes := by
  induction bytes with
  | nil => exact Function.bijective_id
  | cons byte bytes ih => exact ih.comp (absorb_bijective byte)

/-! ## The bytes of a word -/

/-- The lowest bytes of a word, the least significant one first. -/
def lowBytes : (count : Nat) → (word : UInt64) → List UInt8
  | 0, _ => []
  | count + 1, word => word.toUInt8 :: lowBytes count (word >>> 8)

/-- The eight bytes of a word. -/
def bytesOf (word : UInt64) : List UInt8 :=
  lowBytes 8 word

theorem length_lowBytes (count : Nat) (word : UInt64) : (lowBytes count word).length = count := by
  induction count generalizing word with
  | zero => rfl
  | succ count ih => exact congrArg (· + 1) (ih (word >>> 8))

theorem length_bytesOf (word : UInt64) : (bytesOf word).length = 8 :=
  length_lowBytes 8 word

theorem absorbLow_eq_absorbAll (count : Nat) (state word : UInt64) :
    absorbLow count state word = absorbAll state (lowBytes count word) := by
  induction count generalizing state word with
  | zero => rfl
  | succ count ih => exact ih (absorb state word.toUInt8) (word >>> 8)

theorem mix_eq_absorbAll (state word : UInt64) : mix state word = absorbAll state (bytesOf word) :=
  absorbLow_eq_absorbAll 8 state word

theorem mix_mix_eq_absorbAll (state a b : UInt64) :
    mix (mix state a) b = absorbAll state (bytesOf a ++ bytesOf b) := by
  rw [mix_eq_absorbAll, mix_eq_absorbAll]
  exact List.foldl_append.symm

/-- No two states are taken to one by mixing a word in, and every state is reached. -/
theorem mix_bijective (word : UInt64) : Function.Bijective fun state => mix state word := by
  simp only [mix_eq_absorbAll]
  exact absorbAll_bijective (bytesOf word)

/-! ## What bytes add to a state -/

/-- A byte that is xored in changes the lowest byte only. -/
theorem xor_byte (state : UInt64) (byte : UInt8) :
    state ^^^ byte.toUInt64 =
      state + ((state.toUInt8 ^^^ byte).toUInt64 - state.toUInt8.toUInt64) := by
  have hbyte : byte.toNat < 2 ^ 8 := byte.toNat_lt
  have hstate := state.toNat_lt
  have hhigh : (state.toNat ^^^ byte.toNat) / 2 ^ 8 = state.toNat / 2 ^ 8 := by
    rw [Nat.xor_div_two_pow, Nat.div_eq_of_lt hbyte, Nat.xor_zero]
  have hlow : (state.toNat ^^^ byte.toNat) % 2 ^ 8 = state.toNat % 2 ^ 8 ^^^ byte.toNat := by
    rw [Nat.xor_mod_two_pow, Nat.mod_eq_of_lt hbyte]
  apply UInt64.toNat_inj.mp
  simp only [UInt64.toNat_xor, UInt64.toNat_add, UInt64.toNat_sub, UInt8.toNat_toUInt64,
    UInt8.toNat_xor, UInt64.toNat_toUInt8]
  omega

theorem toUInt8_absorb (state : UInt64) (byte : UInt8) :
    (absorb state byte).toUInt8 = (state.toUInt8 ^^^ byte) * prime.toUInt8 := by
  rw [absorb, UInt64.toUInt8_mul, UInt64.toUInt8_xor, UInt8.toUInt8_toUInt64]

/-- What bytes add to a state with a given lowest byte, apart from multiplying it. -/
def drift (low : UInt8) : List UInt8 → UInt64
  | [] => 0
  | byte :: bytes =>
    ((low ^^^ byte).toUInt64 - low.toUInt64) * prime ^ (bytes.length + 1) +
      drift ((low ^^^ byte) * prime.toUInt8) bytes

theorem absorbAll_eq (state : UInt64) (bytes : List UInt8) :
    absorbAll state bytes = state * prime ^ bytes.length + drift state.toUInt8 bytes := by
  induction bytes generalizing state with
  | nil => exact (mul_one state).symm.trans (add_zero _).symm
  | cons byte bytes ih =>
    -- The lowest byte of the next state does not depend on the rest of this one.
    rw [absorbAll_cons, ih, toUInt8_absorb, absorb, xor_byte, drift, List.length_cons]
    ring

theorem mix_mix_eq (s a b : UInt64) :
    mix (mix s a) b = s * prime ^ 16 + drift s.toUInt8 (bytesOf a ++ bytesOf b) := by
  rw [mix_mix_eq_absorbAll, absorbAll_eq, List.length_append, length_bytesOf, length_bytesOf]

/-- Words show their order at a state when their bytes do not drift to one place in both orders. -/
theorem mix_mix_ne_iff (s a b : UInt64) :
    mix (mix s a) b ≠ mix (mix s b) a ↔
      drift s.toUInt8 (bytesOf a ++ bytesOf b) ≠ drift s.toUInt8 (bytesOf b ++ bytesOf a) := by
  rw [mix_mix_eq, mix_mix_eq]
  exact (add_right_injective (s * prime ^ 16)).ne_iff

/-! ## Words of one byte -/

theorem absorbAll_replicate_zero (count : Nat) (state : UInt64) :
    absorbAll state (List.replicate count 0) = state * prime ^ count := by
  induction count generalizing state with
  | zero => exact (mul_one state).symm
  | succ count ih =>
    have habsorb : absorb state 0 = state * prime := congrArg (· * prime) UInt64.xor_zero
    rw [List.replicate_succ, absorbAll_cons, ih, habsorb]
    ring

theorem lowBytes_zero (count : Nat) : lowBytes count 0 = List.replicate count 0 := by
  induction count with
  | zero => rfl
  | succ count ih => exact congrArg (0 :: ·) ih

theorem bytesOf_byte (byte : UInt8) : bytesOf byte.toUInt64 = byte :: List.replicate 7 0 := by
  have hrest : byte.toUInt64 >>> 8 = 0 := by
    apply UInt64.toNat_inj.mp
    rw [UInt64.toNat_shiftRight, UInt8.toNat_toUInt64]
    exact Nat.shiftRight_eq_zero byte.toNat 8 byte.toNat_lt
  rw [bytesOf, lowBytes, hrest, lowBytes_zero, UInt8.toUInt8_toUInt64]

theorem mix_byte (state : UInt64) (byte : UInt8) :
    mix state byte.toUInt64 = (state ^^^ byte.toUInt64) * prime ^ 8 := by
  rw [mix_eq_absorbAll, bytesOf_byte, absorbAll_cons, absorbAll_replicate_zero, absorb]
  ring

theorem exists_toUInt64_eq {word : UInt64} (h : word < 256) :
    ∃ byte : UInt8, byte.toUInt64 = word := by
  refine ⟨word.toUInt8, ?_⟩
  have hlt : word.toNat < 256 := UInt64.lt_iff_toNat_lt.mp h
  apply UInt64.toNat_inj.mp
  rw [UInt8.toNat_toUInt64, UInt64.toNat_toUInt8]
  exact Nat.mod_eq_of_lt hlt

/-- The difference of two bytes, as a word. -/
def IsByteSub (d : UInt64) : Prop :=
  d + 255 < 511

theorem isByteSub_sub (x y : UInt8) : IsByteSub (x.toUInt64 - y.toUInt64) := by
  have hx := x.toNat_lt
  have hy := y.toNat_lt
  unfold IsByteSub
  rw [UInt64.lt_iff_toNat_lt]
  simp only [UInt64.toNat_add, UInt64.toNat_sub, UInt8.toNat_toUInt64, UInt64.reduceToNat]
  omega

/-- The eighth power of the prime takes no difference of two bytes but zero to another one. -/
theorem eq_zero_of_isByteSub_mul {d : UInt64} (hd : IsByteSub d)
    (hmul : IsByteSub (d * prime ^ 8)) : d = 0 := by
  -- There are few enough differences to try them all.
  have hall : ∀ n : Fin 511, IsByteSub ((UInt64.ofNat n - 255) * prime ^ 8) → n = 255 := by
    unfold IsByteSub
    decide +kernel
  have hlt : (d + 255).toNat < 511 := UInt64.lt_iff_toNat_lt.mp hd
  have hd' : UInt64.ofNat (d + 255).toNat - 255 = d := by
    rw [UInt64.ofNat_toNat, add_sub_cancel_right]
  have hn : (⟨(d + 255).toNat, hlt⟩ : Fin 511) = 255 := hall _ (by rwa [hd'])
  have hzero : (d + 255).toNat = 255 := congrArg Fin.val hn
  rw [← hd', hzero]
  rfl

theorem mul_prime_pow_injective (count : Nat) :
    Function.Injective fun state : UInt64 => state * prime ^ count := by
  have hzeros := (absorbAll_bijective (List.replicate count 0)).injective
  simpa only [absorbAll_replicate_zero] using hzeros

/-- One byte or another that is xored in makes a difference in the lowest byte only. -/
theorem xor_byte_sub (state : UInt64) (x y : UInt8) :
    (state ^^^ y.toUInt64) - (state ^^^ x.toUInt64) =
      (state.toUInt8 ^^^ y).toUInt64 - (state.toUInt8 ^^^ x).toUInt64 := by
  rw [xor_byte, xor_byte]
  ring

/-- Words of one byte show their order. The byte that comes first is multiplied by a power of the
prime before the other one is xored in, which cannot make up for that. -/
theorem mix_mix_byte_ne (state : UInt64) {x y : UInt8} (hne : x ≠ y) :
    mix (mix state x.toUInt64) y.toUInt64 ≠ mix (mix state y.toUInt64) x.toUInt64 := by
  intro heq
  simp only [mix_byte] at heq
  have hxor := mul_prime_pow_injective 8 heq
  generalize hz : (state ^^^ x.toUInt64) * prime ^ 8 = z at hxor
  generalize hw : (state ^^^ y.toUInt64) * prime ^ 8 = w at hxor
  have hzw : w = z ^^^ (y ^^^ x).toUInt64 := by
    have hxor : z ^^^ y.toUInt64 = w ^^^ x.toUInt64 := hxor
    rw [UInt8.toUInt64_xor, ← UInt64.xor_assoc, hxor, UInt64.xor_assoc, UInt64.xor_self,
      UInt64.xor_zero]
  have hsub : IsByteSub (w - z) := by
    rw [hzw, xor_byte, add_sub_cancel_left]
    exact isByteSub_sub _ _
  have hzero : (state.toUInt8 ^^^ y).toUInt64 - (state.toUInt8 ^^^ x).toUInt64 = 0 := by
    apply eq_zero_of_isByteSub_mul (isByteSub_sub _ _)
    rw [← xor_byte_sub, sub_mul, hz, hw]
    exact hsub
  have hbytes : state.toUInt8 ^^^ y = state.toUInt8 ^^^ x :=
    UInt8.toUInt64_inj.mp (sub_eq_zero.mp hzero)
  exact hne ((UInt8.xor_right_inj _).mp hbytes).symm

/-! ## The order of two words -/

/-- **When words show their order.** They do unless their bytes drift to one place in both orders,
which the lowest byte of the state decides. Words of one byte always do. -/
theorem mix_order (s a b : UInt64) :
    (mix (mix s a) b ≠ mix (mix s b) a ↔
      drift s.toUInt8 (bytesOf a ++ bytesOf b) ≠ drift s.toUInt8 (bytesOf b ++ bytesOf a)) ∧
    (a ≠ b → a < 256 → b < 256 → mix (mix s a) b ≠ mix (mix s b) a) := by
  refine ⟨mix_mix_ne_iff s a b, ?_⟩
  intro hne ha hb
  obtain ⟨x, rfl⟩ := exists_toUInt64_eq ha
  obtain ⟨y, rfl⟩ := exists_toUInt64_eq hb
  exact mix_mix_byte_ne s (ne_of_apply_ne UInt8.toUInt64 hne)

theorem mix_order_small :
    (3 : UInt64) ≠ 5 ∧ (3 : UInt64) < 256 ∧ (5 : UInt64) < 256 ∧
    mix (mix 0x40 3) 5 ≠ mix (mix 0x40 5) 3 := by
  obtain ⟨-, hbytes⟩ := mix_order 0x40 3 5
  have hne : (3 : UInt64) ≠ 5 := by decide
  have hthree : (3 : UInt64) < 256 := by decide
  have hfive : (5 : UInt64) < 256 := by decide
  exact ⟨hne, hthree, hfive, hbytes hne hthree hfive⟩

/-- Two words that have the same effect in both orders, at one state of 256. -/
theorem mix_mix_comm_of_toUInt8_eq {s : UInt64} (hlow : s.toUInt8 = 0x40) :
    mix (mix s 0x40caa51e07324657) 0x1f838a7e41881c34 =
      mix (mix s 0x1f838a7e41881c34) 0x40caa51e07324657 := by
  rw [mix_mix_eq, mix_mix_eq, hlow]
  exact congrArg (s * prime ^ 16 + ·) (by decide +kernel)

/-- The two words are the hashes of two texts, and the state here is the hash of the name from which
the digests of enumerations start: two enumerations with the same symbols in different orders have
one digest. -/
theorem order_not_shown :
    (0x40caa51e07324657 : UInt64) ≠ 0x1f838a7e41881c34 ∧
    mix (mix 0xcefca76cfa645040 0x40caa51e07324657) 0x1f838a7e41881c34 =
      mix (mix 0xcefca76cfa645040 0x1f838a7e41881c34) 0x40caa51e07324657 ∧
    (BasicType.enum ["diIu6jIEKTia", "FrNOvvI_RPWa"]).digest =
      (BasicType.enum ["FrNOvvI_RPWa", "diIu6jIEKTia"]).digest := by
  exact ⟨by decide, by decide, by decide +kernel⟩

end SchemaGraph.Fnv
