import KeyPartitions.Basic

/-!
# Hash functions of keys

A hash function takes a key to a 64-bit word, and a bucket is that word modulo the number of
buckets. `mix64` spreads every input bit over the whole word by three xor-shifts around two
multiplications by odd constants.
-/
namespace KeyPartitions

def xorShift (word : UInt64) : UInt64 := word ^^^ (word >>> 33)

def mix64 (word : UInt64) : UInt64 :=
  xorShift (xorShift (xorShift word * 0xff51afd7ed558ccd) * 0xc4ceb9fe1a85ec53)

/-- The multiplier of the one-multiplication hash. -/
def foldMultiplier : UInt64 := 0x517cc1b727220a95

/-- The hash functions that settings name. The words of `aHash` are fixed elsewhere, so they come
with it and can be any. -/
inductive HashFunction
  | mix64
  | aHash (words : Key → UInt64)
  | fxHash

namespace HashFunction

def name : HashFunction → String
  | .mix64 => "Mix64"
  | .aHash _ => "AHash"
  | .fxHash => "FxHash"

/-- Hash functions are told apart by their names. -/
instance : BEq HashFunction where
  beq first second := first.name == second.name

def hash : HashFunction → Key → UInt64
  | .mix64, key => KeyPartitions.mix64 key.toUInt64
  | .aHash words, key => words key
  | .fxHash, key => key.toUInt64 * foldMultiplier

end HashFunction

/-- The bucket of a hash among `capacity` buckets. -/
def bucketIndex (hash : UInt64) (capacity : Nat) : Nat := hash.toNat % capacity

theorem bucketIndex_lt (hash : UInt64) {capacity : Nat} (positive : 0 < capacity) :
    bucketIndex hash capacity < capacity := Nat.mod_lt _ positive

/-- The bucket of a key, which exists only where there is at least one bucket. -/
def HashFunction.bucket? (function : HashFunction) (capacity : Nat) (key : Key) : Option Nat :=
  if capacity = 0 then none else some (bucketIndex (function.hash key) capacity)

end KeyPartitions
