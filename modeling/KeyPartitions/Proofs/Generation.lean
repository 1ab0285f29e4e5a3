import KeyPartitions.Records.Generate
import Mathlib.Data.List.Nodup

/-!
# Made-up records

Whatever words the source gives, a bounded draw stays below its bound and a shuffle is made of
swaps. So the generated records have the first keys, each once, and every partition is one of those
asked for.
-/
namespace KeyPartitions

namespace Random

variable {σ : Type} [WordSource σ]

theorem below_lt {bound : Nat} (positive : 0 < bound) (source : σ) :
    (below bound source).1 < bound := by
  have word := (WordSource.next source).1.toNat_lt
  -- A word is short of its range by one at least, so the scaled word is short by the bound.
  have scaled : (WordSource.next source).1.toNat * bound ≤ 4294967295 * bound :=
    Nat.mul_le_mul_right bound (by omega)
  simp only [below, UInt32.size]
  split
  next carries =>
    -- In the last interval the fraction is too small to carry.
    dsimp only
    split <;> omega
  next => dsimp only; omega

section Shuffle

variable {β : Type}

theorem swapIfInBounds_perm (array : Array β) (first second : Nat) :
    (array.swapIfInBounds first second).toList.Perm array.toList := by
  unfold Array.swapIfInBounds
  split
  · split
    · exact (Array.swap_perm _ _).toList
    · exact List.Perm.refl _
  · exact List.Perm.refl _

theorem foldl_shuffleStep_perm (steps : List Nat) (array : Array β) (drawer : IndexDrawer)
    (source : σ) :
    (steps.foldl shuffleStep (array, drawer, source)).1.toList.Perm array.toList := by
  induction steps generalizing array drawer source with
  | nil => exact List.Perm.refl _
  | cons step rest ih => exact (ih _ _ _).trans (swapIfInBounds_perm array step _)

/-- A shuffle loses nothing, whichever indices are drawn. -/
theorem shuffle_perm (array : Array β) (source : σ) :
    (shuffle array source).1.toList.Perm array.toList :=
  foldl_shuffleStep_perm _ array {} source

end Shuffle

end Random

namespace Records

open KeyPartitions.Random

theorem mem_firstKeys {count : Nat} (small : count ≤ Int64.maxValue.toInt) {key : Key} :
    key ∈ firstKeys count ↔ 1 ≤ key.toInt ∧ key.toInt ≤ count := by
  have bound : (count : Int) < 2 ^ 63 := by
    have limit : Int64.maxValue.toInt < 2 ^ 63 := by decide
    omega
  rw [firstKeys, if_pos small, List.mem_map]
  constructor
  · rintro ⟨position, inside, rfl⟩
    have before := List.mem_range.mp inside
    rw [Int64.toInt_ofNat_of_lt (by omega)]
    omega
  · rintro ⟨low, high⟩
    refine ⟨key.toInt.toNat - 1, List.mem_range.mpr (by omega), ?_⟩
    apply Int64.toInt_inj.mp
    rw [Int64.toInt_ofNat_of_lt (by omega)]
    omega

theorem length_firstKeys {count : Nat} (small : count ≤ Int64.maxValue.toInt) :
    (firstKeys count).length = count := by
  rw [firstKeys, if_pos small, List.length_map, List.length_range]

theorem nodup_firstKeys (count : Nat) : (firstKeys count).Nodup := by
  unfold firstKeys
  split
  next small =>
    have limit : Int64.maxValue.toInt < 2 ^ 63 := by decide
    refine List.Nodup.map_on ?_ List.nodup_range
    intro first firstInside second secondInside same
    have firstBefore := List.mem_range.mp firstInside
    have secondBefore := List.mem_range.mp secondInside
    have values := congrArg Int64.toInt same
    rw [Int64.toInt_ofNat_of_lt (by omega), Int64.toInt_ofNat_of_lt (by omega)] at values
    omega
  next => exact List.nodup_nil

section Draw

variable {σ : Type} [WordSource σ] {partitions : Partition}

theorem ofNat_below_lt (positive : 0 < partitions) (source : σ) :
    UInt32.ofNat (below partitions.toNat source).1 < partitions := by
  have drawn := below_lt (UInt32.lt_iff_toNat_lt.mp positive) source
  have fits := Nat.lt_trans drawn partitions.toNat_lt
  rw [UInt32.lt_iff_toNat_lt, UInt32.toNat_ofNat_of_lt' fits]
  exact drawn

/-- The keys get their entries one by one, the latest first, and each a partition in bounds. -/
theorem foldl_drawEntry (positive : 0 < partitions) (keys : List Key) (before : List Entry)
    (source : σ) :
    ∃ drawn : List Entry, drawn.map Entry.key = keys ∧
      (∀ entry ∈ drawn, entry.partition < partitions) ∧
      (keys.foldl (drawEntry partitions.toNat) (before, source)).1 = drawn.reverse ++ before := by
  induction keys generalizing before source with
  | nil => exact ⟨[], rfl, by simp, rfl⟩
  | cons key rest ih =>
    let first : Entry := ⟨key, UInt32.ofNat (below partitions.toNat source).1⟩
    obtain ⟨drawn, keys, bounded, entries⟩ := ih (first :: before) (below partitions.toNat source).2
    refine ⟨first :: drawn, by rw [List.map_cons, keys], ?_, ?_⟩
    · exact List.forall_mem_cons.mpr ⟨ofNat_below_lt positive source, bounded⟩
    · rw [List.foldl_cons, List.reverse_cons, List.append_assoc]
      exact entries

/-- Records of the first keys, each once and in some order, with partitions in bounds. -/
structure Generated (count : Nat) (partitions : Partition) (entries : List Entry) : Prop where
  keys : (entries.map Entry.key).Perm (firstKeys count)
  bounded : ∀ entry ∈ entries, entry.partition < partitions

/-- There are records for every count and every source, as long as there is a partition. -/
theorem generate?_generated (count : Nat) (positive : 0 < partitions) (source : σ) :
    ∃ entries after, generate? count partitions source = some (entries, after) ∧
      Generated count partitions entries := by
  let shuffled := shuffle (firstKeys count).toArray source
  have nonzero : partitions ≠ 0 := fun zero => absurd positive (by simp [zero])
  obtain ⟨drawn, keys, bounded, entries⟩ :=
    foldl_drawEntry positive shuffled.1.toList [] shuffled.2
  rw [Array.foldl_toList, List.append_nil] at entries
  refine ⟨drawn, (shuffled.1.foldl (drawEntry partitions.toNat) ([], shuffled.2)).2, ?_, ?_,
    bounded⟩
  · simp only [generate?, if_neg nonzero]
    rw [entries, List.reverse_reverse]
  · rw [keys]
    exact shuffle_perm _ source

namespace Generated

variable {count : Nat} {partitions : Partition} {entries : List Entry}
  (generated : Generated count partitions entries)

include generated

theorem nodup_keys : (entries.map Entry.key).Nodup :=
  generated.keys.nodup_iff.mpr (nodup_firstKeys count)

theorem length_eq (small : count ≤ Int64.maxValue.toInt) : entries.length = count := by
  have lengths := generated.keys.length_eq
  rwa [List.length_map, length_firstKeys small] at lengths

theorem mem_keys_iff (small : count ≤ Int64.maxValue.toInt) (key : Key) :
    key ∈ entries.map Entry.key ↔ 1 ≤ key.toInt ∧ key.toInt ≤ count := by
  rw [generated.keys.mem_iff, mem_firstKeys small]

end Generated

end Draw

end Records

end KeyPartitions
