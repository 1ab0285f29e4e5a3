import KeyPartitions.Hash
import Mathlib.Data.Int.ModEq
import Mathlib.Logic.Function.Basic

/-!
# Mixing loses nothing

Each stage of `mix64` can be undone. An xor with the upper half shifted down leaves the upper half
as it was, so doing it again takes it back. A multiplication by an odd constant is undone by the
constant that gives one with it. So different keys have different mixed words, and what they can
still share is a remainder.
-/
namespace KeyPartitions

/-! ### Undoing the stages -/

/-- A shift by more than half of the bits, done twice, leaves nothing. -/
theorem xorShift_xorShift (word : UInt64) : xorShift (xorShift word) = word := by
  apply UInt64.toBitVec_inj.mp
  apply BitVec.eq_of_getLsbD_eq
  intro bit inside
  have beyond : word.toBitVec.getLsbD (33 + (33 + bit)) = false :=
    BitVec.getLsbD_of_ge _ _ (by omega)
  simp [xorShift, beyond]

/-- A factor that has an inverse can be taken back. -/
theorem mul_mul_cancel_of_mul_eq_one {factor inverse : UInt64} (one : factor * inverse = 1)
    (word : UInt64) : word * factor * inverse = word := by
  rw [UInt64.mul_assoc, one, UInt64.mul_one]

/-- The stages of `mix64` in the other order, each undone. -/
def unmix64 (word : UInt64) : UInt64 :=
  xorShift (xorShift (xorShift word * 0x9cb4b2f8129337db) * 0x4f74430c22a54005)

theorem unmix64_mix64 (word : UInt64) : unmix64 (mix64 word) = word := by
  have first : (0xff51afd7ed558ccd : UInt64) * 0x4f74430c22a54005 = 1 := by decide
  have second : (0xc4ceb9fe1a85ec53 : UInt64) * 0x9cb4b2f8129337db = 1 := by decide
  -- From the outside in, every stage meets the one that undoes it.
  rw [unmix64, mix64, xorShift_xorShift, mul_mul_cancel_of_mul_eq_one second, xorShift_xorShift,
    mul_mul_cancel_of_mul_eq_one first, xorShift_xorShift]

theorem mix64_unmix64 (word : UInt64) : mix64 (unmix64 word) = word := by
  have first : (0x4f74430c22a54005 : UInt64) * 0xff51afd7ed558ccd = 1 := by decide
  have second : (0x9cb4b2f8129337db : UInt64) * 0xc4ceb9fe1a85ec53 = 1 := by decide
  rw [mix64, unmix64, xorShift_xorShift, mul_mul_cancel_of_mul_eq_one first, xorShift_xorShift,
    mul_mul_cancel_of_mul_eq_one second, xorShift_xorShift]

/-! ### Keys that share a bucket -/

theorem toUInt64_injective : Function.Injective Int64.toUInt64 :=
  Function.LeftInverse.injective Int64.toInt64_toUInt64

/-- Hashes go to one bucket just if their difference is a multiple of the capacity. -/
theorem bucketIndex_eq_iff_dvd {first second : UInt64} {capacity : Nat} :
    bucketIndex first capacity = bucketIndex second capacity ↔
      (capacity : Int) ∣ first.toNat - second.toNat := by
  have congruent : bucketIndex second capacity = bucketIndex first capacity ↔
      (capacity : Int) ∣ first.toNat - second.toNat := Nat.modEq_iff_dvd
  exact eq_comm.trans congruent

/-- Where there are as many buckets as words nothing is reduced. -/
theorem bucketIndex_of_size_le {capacity : Nat} (many : UInt64.size ≤ capacity) (hash : UInt64) :
    bucketIndex hash capacity = hash.toNat :=
  Nat.mod_eq_of_lt (hash.toNat_lt_size.trans_le many)

theorem bucket?_of_pos (function : HashFunction) {capacity : Nat} (nonempty : 0 < capacity)
    (key : Key) : function.bucket? capacity key = some (bucketIndex (function.hash key) capacity) :=
  if_neg (Nat.ne_of_gt nonempty)

/-- Mixing takes the words to the words one to one. So different keys always have different mixed
hashes, they share a bucket just where the capacity divides the difference of these, and where
nothing is reduced they share none. -/
theorem mix64_separates_keys :
    Function.Bijective mix64 ∧
    ∀ first second : Key, first ≠ second →
      let hash := HashFunction.mix64.hash
      let bucket? := HashFunction.mix64.bucket?
      hash first ≠ hash second ∧
      (∀ capacity, 0 < capacity → (bucket? capacity first = bucket? capacity second ↔
        (capacity : Int) ∣ (hash first).toNat - (hash second).toNat)) ∧
      ∀ capacity, UInt64.size ≤ capacity → bucket? capacity first ≠ bucket? capacity second := by
  have undone : Function.LeftInverse unmix64 mix64 := unmix64_mix64
  have reached : Function.RightInverse unmix64 mix64 := mix64_unmix64
  refine ⟨⟨undone.injective, reached.surjective⟩, fun first second other => ?_⟩
  intro hash bucket?
  have apart : hash first ≠ hash second := by
    intro same
    exact other (toUInt64_injective (undone.injective same))
  refine ⟨apart, fun capacity nonempty => ?shared, fun capacity many => ?unreduced⟩
  case shared =>
    simp only [bucket?, bucket?_of_pos _ nonempty, Option.some.injEq]
    exact bucketIndex_eq_iff_dvd
  case unreduced =>
    have nonempty : 0 < capacity := Nat.lt_of_lt_of_le (by decide) many
    simp only [bucket?, bucket?_of_pos _ nonempty, bucketIndex_of_size_le many, ne_eq,
      Option.some.injEq, UInt64.toNat_inj]
    exact apart

/-- Sixteen buckets do not tell these keys apart, and sixty-four do. -/
theorem mix64_separates_keys_of_sixteen :
    let hash := HashFunction.mix64.hash
    let bucket? := HashFunction.mix64.bucket?
    (1 : Key) ≠ -8 ∧ hash 1 ≠ hash (-8) ∧
      (16 : Int) ∣ (hash 1).toNat - (hash (-8)).toNat ∧ bucket? 16 1 = bucket? 16 (-8) ∧
      bucket? 64 1 ≠ bucket? 64 (-8) ∧ bucket? UInt64.size 1 ≠ bucket? UInt64.size (-8) := by
  intro hash bucket?
  have other : (1 : Key) ≠ -8 := by decide
  obtain ⟨apart, shared, unreduced⟩ := mix64_separates_keys.2 1 (-8) other
  have gap : (16 : Int) ∣ (hash 1).toNat - (hash (-8)).toNat := by decide +kernel
  exact ⟨other, apart, gap, (shared 16 (by decide)).mpr gap, by decide +kernel,
    unreduced UInt64.size (Nat.le_refl _)⟩

end KeyPartitions
