import KeyPartitions.Proofs.Mixing
import KeyPartitions.Proofs.Reachable
import KeyPartitions.Proofs.Splitting
import Mathlib.Data.Int.ModEq
import Mathlib.Data.Set.Function

/-!
# Residues of keys and their buckets

The one-multiplication hash does not mix the low bits of a key with the high ones. Where the number
of buckets divides that of the words, wrapping around does not change a remainder, so a bucket is
the residue of the key times the multiplier. The multiplier has an inverse, and this takes a bucket
back to the one residue that goes there. The rest follows from this: consecutive keys take one
bucket each, and the multiples of the number of buckets all take the first.
-/
namespace KeyPartitions

/-! ### Words modulo a divisor of their number -/

section Words

variable {modulus : Nat} (divides : modulus ∣ UInt64.size)

include divides

theorem toNat_mul_modEq (first second : UInt64) :
    (first * second).toNat ≡ first.toNat * second.toNat [MOD modulus] := by
  rw [UInt64.toNat_mul]
  exact (Nat.mod_modEq _ _).of_dvd divides

/-- A negative key and its word differ by the number of words. -/
theorem toNat_toUInt64_modEq (key : Key) :
    (key.toUInt64.toNat : Int) ≡ key.toInt [ZMOD modulus] := by
  have signed : key.toInt = Int.bmod key.toUInt64.toNat UInt64.size :=
    BitVec.toInt_eq_toNat_bmod key.toBitVec
  have words : (key.toUInt64.toNat : Int) ≡ key.toInt [ZMOD UInt64.size] := by
    rw [signed]
    exact Int.bmod_emod.symm
  exact words.of_dvd (Int.natCast_dvd_natCast.mpr divides)

theorem toInt_modEq_natCast_iff (key : Key) (residue : Nat) :
    key.toInt ≡ residue [ZMOD modulus] ↔ key.toUInt64.toNat ≡ residue [MOD modulus] := by
  rw [← Int.natCast_modEq_iff]
  have same := toNat_toUInt64_modEq divides key
  exact ⟨same.trans, same.symm.trans⟩

theorem toNat_mul_toNat_modEq_one {factor inverse : UInt64} (one : factor * inverse = 1) :
    factor.toNat * inverse.toNat ≡ 1 [MOD modulus] := by
  have product := toNat_mul_modEq divides factor inverse
  rw [one] at product
  exact product.symm

/-- A multiplication that can be undone sends exactly one residue of keys to each bucket. -/
theorem bucketIndex_mul_eq_iff {factor inverse : UInt64} (one : factor * inverse = 1) (key : Key)
    {bucket : Nat} (inside : bucket < modulus) :
    bucketIndex (key.toUInt64 * factor) modulus = bucket ↔
      key.toInt ≡ bucket * inverse.toNat [ZMOD modulus] := by
  let hash := key.toUInt64 * factor
  have home : bucketIndex hash modulus = bucket ↔ hash.toNat ≡ bucket [MOD modulus] := by
    rw [Nat.ModEq, Nat.mod_eq_of_lt inside, bucketIndex]
  rw [home, ← Nat.cast_mul, toInt_modEq_natCast_iff divides]
  constructor
  · -- The inverse takes the hash back to the word of the key.
    intro here
    have word : hash * inverse = key.toUInt64 := mul_mul_cancel_of_mul_eq_one one _
    calc key.toUInt64.toNat = (hash * inverse).toNat := congrArg UInt64.toNat word.symm
      _ ≡ hash.toNat * inverse.toNat [MOD modulus] := toNat_mul_modEq divides _ _
      _ ≡ bucket * inverse.toNat [MOD modulus] := here.mul_right _
  · -- Once more the factor, and it meets its inverse.
    intro residue
    calc hash.toNat ≡ key.toUInt64.toNat * factor.toNat [MOD modulus] :=
          toNat_mul_modEq divides _ _
      _ ≡ bucket * inverse.toNat * factor.toNat [MOD modulus] := residue.mul_right _
      _ = bucket * (factor.toNat * inverse.toNat) := by
          rw [Nat.mul_assoc, Nat.mul_comm inverse.toNat]
      _ ≡ bucket * 1 [MOD modulus] := (toNat_mul_toNat_modEq_one divides one).mul_left _
      _ = bucket := Nat.mul_one _

end Words

/-! ### Consecutive keys -/

/-- The keys from `first` to `last`. -/
def keysBetween (first last : Key) : Set Key := {key | first ≤ key ∧ key ≤ last}

section Consecutive

variable {first last : Key} {modulus : Nat} (many : last.toInt + 1 = first.toInt + modulus)

include many

/-- Among consecutive keys, as many as there are residues, no residue is that of two keys. -/
theorem eq_of_modEq_of_mem_keysBetween {key other : Key} (member : key ∈ keysBetween first last)
    (among : other ∈ keysBetween first last) (same : key.toInt ≡ other.toInt [ZMOD modulus]) :
    key = other := by
  obtain ⟨above, below⟩ := member
  obtain ⟨higher, lower⟩ := among
  rw [Int64.le_iff_toInt_le] at above below higher lower
  have near : |other.toInt - key.toInt| < (modulus : Int) := abs_lt.mpr ⟨by omega, by omega⟩
  have apart := Int.eq_zero_of_abs_lt_dvd same.dvd near
  apply Int64.toInt_inj.mp
  omega

theorem exists_mem_keysBetween_modEq (positive : 0 < modulus) (residue : Int) :
    ∃ key ∈ keysBetween first last, key.toInt ≡ residue [ZMOD modulus] := by
  -- The residue counted from the first key is how far behind it the key is.
  obtain ⟨offset, low, high, congruent⟩ :=
    Int.existsUnique_equiv (residue - first.toInt) (Int.natCast_pos.mpr positive)
  have least := first.le_toInt
  have greatest := last.toInt_lt
  have value : (Int64.ofInt (first.toInt + offset)).toInt = first.toInt + offset :=
    Int64.toInt_ofInt_of_le (by omega) (by omega)
  refine ⟨Int64.ofInt (first.toInt + offset), ⟨?above, ?below⟩, ?residue⟩
  case above =>
    rw [Int64.le_iff_toInt_le, value]
    omega
  case below =>
    rw [Int64.le_iff_toInt_le, value]
    omega
  case residue =>
    rw [value]
    simpa using congruent.add_left first.toInt

end Consecutive

/-! ### Buckets of the one-multiplication hash -/

/-- Takes the multiplier back. -/
def foldInverse : UInt64 := 0x2040003d780970bd

theorem foldMultiplier_mul_foldInverse : foldMultiplier * foldInverse = 1 := by decide

section FoldedBuckets

variable {capacity : Nat} (divides : capacity ∣ UInt64.size)

include divides

theorem bucketIndex_fxHash_eq_iff (key : Key) {bucket : Nat} (inside : bucket < capacity) :
    bucketIndex (HashFunction.fxHash.hash key) capacity = bucket ↔
      key.toInt ≡ bucket * foldInverse.toNat [ZMOD capacity] :=
  bucketIndex_mul_eq_iff divides foldMultiplier_mul_foldInverse key inside

theorem bucketIndex_fxHash_eq_bucketIndex_iff (first second : Key) :
    bucketIndex (HashFunction.fxHash.hash first) capacity =
        bucketIndex (HashFunction.fxHash.hash second) capacity ↔
      first.toInt ≡ second.toInt [ZMOD capacity] := by
  have positive : 0 < capacity := Nat.pos_of_dvd_of_pos divides (by decide)
  have inside := bucketIndex_lt (HashFunction.fxHash.hash second) positive
  have residue := (bucketIndex_fxHash_eq_iff divides second inside).mp rfl
  rw [bucketIndex_fxHash_eq_iff divides first inside]
  exact ⟨fun same => same.trans residue.symm, fun same => same.trans residue⟩

theorem bucketIndex_fxHash_eq_zero_iff (key : Key) :
    bucketIndex (HashFunction.fxHash.hash key) capacity = 0 ↔ (capacity : Int) ∣ key.toInt := by
  have positive : 0 < capacity := Nat.pos_of_dvd_of_pos divides (by decide)
  rw [bucketIndex_fxHash_eq_iff divides key positive, Nat.cast_zero, zero_mul,
    Int.modEq_zero_iff_dvd]

theorem bijOn_bucketIndex_fxHash {first last : Key}
    (many : last.toInt + 1 = first.toInt + capacity) :
    Set.BijOn (fun key => bucketIndex (HashFunction.fxHash.hash key) capacity)
      (keysBetween first last) (Set.Iio capacity) := by
  have positive : 0 < capacity := Nat.pos_of_dvd_of_pos divides (by decide)
  refine ⟨?within, ?apart, ?all⟩
  case within => exact fun key _ => bucketIndex_lt _ positive
  case apart =>
    intro key member other among same
    have congruent := (bucketIndex_fxHash_eq_bucketIndex_iff divides key other).mp same
    exact eq_of_modEq_of_mem_keysBetween many member among congruent
  case all =>
    intro bucket inside
    obtain ⟨key, member, residue⟩ :=
      exists_mem_keysBetween_modEq many positive (bucket * foldInverse.toNat)
    exact ⟨key, member, (bucketIndex_fxHash_eq_iff divides key inside).mpr residue⟩

end FoldedBuckets

/-! ### Chains of the one-multiplication hash -/

namespace Table

variable {α : Type}

/-- The chains of a table sort its keys by their residues modulo the number of buckets. -/
structure GroupsResidues (table : Table α) : Prop where
  /-- Keys share a chain just if they have the same residue. -/
  together : ∀ bucket, ∀ first ∈ table.chainAt bucket, ∀ second ∈ table.entries,
    second ∈ table.chainAt bucket ↔ second.key.toInt ≡ first.key.toInt [ZMOD table.capacity]
  /-- Consecutive keys, as many as there are buckets, have one entry in each chain. -/
  consecutive : ∀ first last : Key, last.toInt + 1 = first.toInt + table.capacity →
    (∀ key ∈ keysBetween first last, (table.find? key).isSome) →
      ∀ bucket < table.capacity,
        ∃! entry, entry ∈ table.chainAt bucket ∧ entry.key ∈ keysBetween first last
  /-- The first chain is that of the multiples of the number of buckets. -/
  multiples : table.chainAt 0 =
    table.entries.filter fun entry => (table.capacity : Int) ∣ entry.key.toInt

namespace WellFormed

variable {table : Table α} (wf : table.WellFormed)

include wf

theorem chainAt_eq_filter (bucket : Nat) :
    table.chainAt bucket = table.entries.filter fun entry => table.index entry.key = bucket := by
  have whole : (table.chainAt bucket).filter (fun entry => table.index entry.key = bucket) =
      table.chainAt bucket := by
    rw [List.filter_eq_self]
    intro entry member
    exact decide_eq_true (wf.placed bucket entry member)
  -- From the other chains nothing is chosen.
  exact whole.symm.trans (wf.placed.filter_flatten fun _ here => of_decide_eq_true here).symm

theorem mem_chainAt_iff {bucket : Nat} {entry : Entry} :
    entry ∈ table.chainAt bucket ↔ entry ∈ table.entries ∧ table.index entry.key = bucket := by
  rw [wf.chainAt_eq_filter bucket]
  simp

theorem groupsResidues (hashed : table.hash = HashFunction.fxHash.hash)
    (divides : table.capacity ∣ UInt64.size) : table.GroupsResidues := by
  have index (key : Key) :
      table.index key = bucketIndex (HashFunction.fxHash.hash key) table.capacity := by
    rw [Table.index, hashed]
  have congruent (first second : Key) : table.index first = table.index second ↔
      first.toInt ≡ second.toInt [ZMOD table.capacity] := by
    rw [index, index]
    exact bucketIndex_fxHash_eq_bucketIndex_iff divides first second
  constructor
  case together =>
    intro bucket first member second stands
    obtain ⟨-, here⟩ := wf.mem_chainAt_iff.mp member
    rw [wf.mem_chainAt_iff, ← congruent, here]
    exact and_iff_right stands
  case consecutive =>
    intro first last many present bucket inside
    obtain ⟨-, apart, all⟩ := bijOn_bucketIndex_fxHash divides many
    obtain ⟨key, member, home⟩ := all inside
    obtain ⟨entry, stands, rfl⟩ := wf.find?_isSome_iff.mp (present key member)
    have there := wf.mem_chainAt_iff.mpr ⟨stands, (index entry.key).trans home⟩
    refine ⟨entry, ⟨there, member⟩, ?only⟩
    case only =>
      rintro other ⟨beside, among⟩
      obtain ⟨found, same⟩ := wf.mem_chainAt_iff.mp beside
      rw [index] at same
      -- Two of these keys in one bucket are one key, and no key stands in two entries.
      have key := apart among member (same.trans home.symm)
      exact List.inj_on_of_nodup_map wf.distinct found stands key
  case multiples =>
    rw [wf.chainAt_eq_filter 0]
    apply List.filter_congr
    intro entry _
    rw [decide_eq_decide, index]
    exact bucketIndex_fxHash_eq_zero_iff divides entry.key

end WellFormed

end Table

/-- Among a power of two of buckets the one-multiplication hash sends two keys to one bucket just if
they have the same residue. So consecutive keys, as many as there are buckets, take all of them one
by one, and the multiples of that number take the first. It is the same with the chains of every
table that a run reaches. -/
theorem fxHash_groups_residues {exponent : Nat} (fits : exponent ≤ 63) :
    let capacity := 2 ^ exponent
    let bucket (key : Key) := bucketIndex (HashFunction.fxHash.hash key) capacity
    (∀ key, HashFunction.fxHash.bucket? capacity key = some (bucket key)) ∧
    (∀ first second : Key,
      bucket first = bucket second ↔ first.toInt ≡ second.toInt [ZMOD capacity]) ∧
    (∀ first last : Key, last.toInt + 1 = first.toInt + capacity →
      Set.BijOn bucket (keysBetween first last) (Set.Iio capacity)) ∧
    (∀ key : Key, bucket key = 0 ↔ (capacity : Int) ∣ key.toInt) ∧
    ∀ {α : Type} [LoadScale α] (memory : Memory) {start : Table α},
      Table.Made memory start → start.hash = HashFunction.fxHash.hash →
        ∀ operations, (start.run memory operations).capacity = capacity →
          (start.run memory operations).GroupsResidues := by
  intro capacity bucket
  have positive : 0 < capacity := Nat.two_pow_pos exponent
  have divides : capacity ∣ UInt64.size := Nat.pow_dvd_pow 2 (by omega : exponent ≤ 64)
  refine ⟨bucket?_of_pos .fxHash positive, bucketIndex_fxHash_eq_bucketIndex_iff divides,
    fun first last many => bijOn_bucketIndex_fxHash divides many,
    bucketIndex_fxHash_eq_zero_iff divides, ?chains⟩
  case chains =>
    intro α _ memory start made hashed operations size
    have wf : (start.run memory operations).WellFormed := made.wellFormed.run memory operations
    have kept : (start.run memory operations).hash = start.hash :=
      (Table.run_keeps_settings operations).1
    exact wf.groupsResidues (kept.trans hashed) (size ▸ divides)

/-- Four buckets. Each of the four keys about zero has a bucket of its own, and two more multiples
of four stand before zero. Of half as many buckets as words, the negative keys take each one. -/
theorem fxHash_groups_residues_of_four :
    let bucket (capacity : Nat) (key : Key) :=
      bucketIndex (HashFunction.fxHash.hash key) capacity
    let memory : Memory := ⟨fun _ => true, fun _ _ => true⟩
    let start : Table Rat := { Table.crowded 2 with hash := HashFunction.fxHash.hash }
    let operations : List Operation :=
      [.extend [⟨-2, 20⟩, ⟨-1, 21⟩, ⟨0, 22⟩, ⟨1, 23⟩], .extend [⟨-8, 24⟩, ⟨4, 25⟩]]
    let table := start.run memory operations
    2 ≤ 63 ∧ (-6 : Key).toInt ≡ (2 : Key).toInt [ZMOD 4] ∧ bucket 4 (-6) = bucket 4 2 ∧
      Table.Made memory start ∧ start.hash = HashFunction.fxHash.hash ∧ table.capacity = 4 ∧
      table.GroupsResidues ∧ table.chainAt 0 = [⟨4, 25⟩, ⟨-8, 24⟩, ⟨0, 22⟩] ∧
      (∀ key ∈ keysBetween (-2) 1, (table.find? key).isSome) ∧
      (∃! entry, entry ∈ table.chainAt 0 ∧ entry.key ∈ keysBetween (-2) 1) ∧
      (-1 : Key).toInt + 1 = Int64.minValue.toInt + 2 ^ 63 ∧
      Set.BijOn (bucket (2 ^ 63)) (keysBetween Int64.minValue (-1)) (Set.Iio (2 ^ 63)) := by
  intro bucket memory start operations table
  have made : Table.Made memory start :=
    Table.made_empty rfl one_pos two_pos _
  obtain ⟨-, together, -, -, chains⟩ := fxHash_groups_residues (by decide : 2 ≤ 63)
  obtain ⟨-, -, consecutive, -, -⟩ := fxHash_groups_residues (Nat.le_refl 63)
  have same : (-6 : Key).toInt ≡ (2 : Key).toInt [ZMOD 4] := by decide
  have size : table.capacity = 4 := by decide +kernel
  have groups : table.GroupsResidues := chains memory made rfl operations size
  have present : ∀ key ∈ keysBetween (-2) 1, (table.find? key).isSome := by
    rintro key ⟨above, below⟩
    have low : -2 ≤ key.toInt := Int64.le_iff_toInt_le.mp above
    have high : key.toInt ≤ 1 := Int64.le_iff_toInt_le.mp below
    have value : key.toInt = (-2 : Key).toInt ∨ key.toInt = (-1 : Key).toInt ∨
        key.toInt = (0 : Key).toInt ∨ key.toInt = (1 : Key).toInt := by
      change key.toInt = -2 ∨ key.toInt = -1 ∨ key.toInt = 0 ∨ key.toInt = 1
      omega
    simp only [Int64.toInt_inj] at value
    rcases value with rfl | rfl | rfl | rfl <;> decide +kernel
  have only := groups.consecutive (-2) 1 (by rw [size]; decide) present 0 (by rw [size]; decide)
  exact ⟨by decide, same, (together (-6) 2).mpr same, made, rfl, size, groups, by decide +kernel,
    present, only, by decide, consecutive _ _ (by decide)⟩

end KeyPartitions
