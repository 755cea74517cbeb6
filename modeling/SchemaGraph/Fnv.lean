/-!
# The 64-bit FNV-1a hash

Structural hashes must not depend on a seed chosen at run time: two equal schemas built in
different places have to agree. So every hash of this library is folded from the fixed functions
of this module.

* `Fnv.absorb`: one byte is xored into the state, then the state is multiplied by the prime.
* `Fnv.ofBytes`, `Fnv.ofString`: the hash of a byte sequence, of the UTF-8 form of a text.
* `Fnv.mix`: continue a hash with a further word, least significant byte first.
-/

namespace SchemaGraph.Fnv

/-- The state that a hash starts from. -/
def basis : UInt64 := 0xcbf29ce484222325

/-- The multiplier of every step. -/
def prime : UInt64 := 0x00000100000001b3

/-- One step: xor the byte into the low eight bits, then multiply modulo 2^64. -/
def absorb (state : UInt64) (byte : UInt8) : UInt64 :=
  (state ^^^ byte.toUInt64) * prime

/-- Continue a hash with the bytes of a sequence, in order. -/
def absorbAll (state : UInt64) (bytes : List UInt8) : UInt64 :=
  bytes.foldl absorb state

/-- The hash of a byte sequence. -/
def ofBytes (bytes : List UInt8) : UInt64 :=
  absorbAll basis bytes

/-- The hash of the UTF-8 form of a text. -/
def ofString (text : String) : UInt64 :=
  ofBytes text.toByteArray.data.toList

/-- Continue a hash with the lowest bytes of a word, the least significant one first. -/
def absorbLow : (count : Nat) → (state word : UInt64) → UInt64
  | 0, state, _ => state
  | count + 1, state, word => absorbLow count (absorb state word.toUInt8) (word >>> 8)

/-- Continue a hash with the eight bytes of a word. -/
def mix (state word : UInt64) : UInt64 :=
  absorbLow 8 state word

@[simp]
theorem absorbAll_cons (state : UInt64) (byte : UInt8) (bytes : List UInt8) :
    absorbAll state (byte :: bytes) = absorbAll (absorb state byte) bytes := rfl

end SchemaGraph.Fnv
