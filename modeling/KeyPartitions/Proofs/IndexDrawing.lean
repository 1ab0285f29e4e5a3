import KeyPartitions.Proofs.Generation
import Mathlib.Data.Nat.Factorial.Basic

/-!
# Drawn indices

A shuffle takes the digits of one draw as the indices of several steps. The bases of these digits
are consecutive numbers, and what is left of the draw stays below the product of the bases still to
come. So every digit is below its base, the last one included, which is taken undivided: the index
of a step is that of an element at or before it, whatever words the source gives.
-/
namespace KeyPartitions

namespace Random

theorem ascFactorial_succ_left (first factors : Nat) :
    first.ascFactorial (factors + 1) = first * (first + 1).ascFactorial factors := by
  rw [Nat.ascFactorial_succ, ← Nat.succ_ascFactorial]

/-- A stretch multiplies factors until one more would make the product too large or the rounds are
used up. -/
theorem stretch_eq {product : Nat} (small : product < UInt32.size) (next rounds : Nat) :
    ∃ factors ≤ rounds,
      stretch product next rounds = (product * next.ascFactorial factors, next + factors) ∧
        product * next.ascFactorial factors < UInt32.size ∧
        (factors = rounds ∨ UInt32.size ≤ product * next.ascFactorial (factors + 1)) := by
  induction rounds generalizing product next with
  | zero => exact ⟨0, Nat.le_refl 0, by simp [stretch], by simpa using small, Or.inl rfl⟩
  | succ rounds ih =>
    have behind (factors : Nat) : product * next * (next + 1).ascFactorial factors =
        product * next.ascFactorial (factors + 1) := by
      rw [ascFactorial_succ_left, Nat.mul_assoc]
    by_cases fits : product * next < UInt32.size
    · obtain ⟨factors, few, same, below, full⟩ := ih fits (next + 1)
      rw [behind] at same below
      rw [behind] at full
      refine ⟨factors + 1, Nat.succ_le_succ few, ?_, below, full.imp_left (congrArg Nat.succ)⟩
      rw [stretch, if_pos fits, same, Nat.add_right_comm, Nat.add_assoc]
    · refine ⟨0, Nat.zero_le _, by simp [stretch, fits], by simpa using small, Or.inr ?_⟩
      simpa [Nat.ascFactorial_succ] using Nat.le_of_not_lt fits

/-- The bases of one draw are consecutive, and as many as a word has room for. -/
theorem bases_eq {first : Nat} (positive : 0 < first) (small : first < UInt32.size) :
    ∃ digits, 0 < digits ∧ bases first = (first.ascFactorial digits, first + digits) ∧
      first.ascFactorial digits < UInt32.size ∧
      UInt32.size ≤ first.ascFactorial (digits + 1) := by
  obtain ⟨factors, -, same, below, full⟩ := stretch_eq small (first + 1) 32
  rw [← ascFactorial_succ_left] at same below full
  refine ⟨factors + 1, Nat.succ_pos _, ?_, below, ?_⟩
  · rw [bases, same, Nat.add_assoc, Nat.add_comm 1]
  · rcases full with used | full
    · -- So many factors of two at least are too large for a word.
      have power : 2 ^ factors ≤ first.ascFactorial (factors + 1) :=
        calc 2 ^ factors ≤ (first + 1) ^ factors := Nat.pow_le_pow_left (by omega) factors
          _ ≤ (first + 1).ascFactorial factors := Nat.pow_succ_le_ascFactorial _ factors
          _ ≤ first * (first + 1).ascFactorial factors := Nat.le_mul_of_pos_left _ positive
          _ = first.ascFactorial (factors + 1) := (ascFactorial_succ_left first factors).symm
      have size : 2 ^ factors = UInt32.size := by simp [used, UInt32.size]
      exact absurd below (Nat.not_lt.mpr (size ▸ power))
    · exact full

namespace IndexDrawer

/-- What is left of the draw is below the product of the bases still to come. After the last digit
there is nothing left, and the value is that of the last draw. -/
def InRange (drawer : IndexDrawer) : Prop :=
  drawer.digits ≠ 0 → drawer.value < (drawer.steps + 1).ascFactorial drawer.digits

theorem inRange_start : ({} : IndexDrawer).InRange := fun _ => by decide

variable {σ : Type} [WordSource σ] {drawer : IndexDrawer}

theorem refill_of_left (left : drawer.digits ≠ 0) (source : σ) :
    drawer.refill source = (drawer, source) :=
  if_neg left

/-- A new draw is below the product of its bases. -/
theorem refill_of_empty (empty : drawer.digits = 0) (small : drawer.steps + 1 < UInt32.size) :
    ∃ digits, 0 < digits ∧ (drawer.steps + 1).ascFactorial digits < UInt32.size ∧
      ∀ (σ : Type) [WordSource σ] (source : σ),
        let draw := below ((drawer.steps + 1).ascFactorial digits) source
        drawer.refill source = (⟨drawer.steps, draw.1, digits⟩, draw.2) := by
  obtain ⟨digits, some, bases_eq, fits, -⟩ := bases_eq (Nat.succ_pos drawer.steps) small
  refine ⟨digits, some, fits, fun σ _ source => ?_⟩
  simp [refill, empty, bases_eq]

theorem InRange.refill (inRange : drawer.InRange) (small : drawer.steps + 1 < UInt32.size)
    (source : σ) :
    let filled := (drawer.refill source).1
    filled.steps = drawer.steps ∧ filled.digits ≠ 0 ∧ filled.InRange := by
  by_cases empty : drawer.digits = 0
  · obtain ⟨digits, some, -, refilled⟩ := refill_of_empty empty small
    rw [refilled]
    exact ⟨rfl, Nat.ne_of_gt some, fun _ => below_lt (Nat.ascFactorial_pos _ _) source⟩
  · rw [refill_of_left empty]
    exact ⟨rfl, empty, inRange⟩

/-- A digit is below its base, and the quotient below the product of the other bases. -/
theorem InRange.takeDigit (inRange : drawer.InRange) (left : drawer.digits ≠ 0) :
    drawer.takeDigit.1 ≤ drawer.steps ∧ drawer.takeDigit.2.steps = drawer.steps + 1 ∧
      drawer.takeDigit.2.InRange := by
  have below := inRange left
  unfold IndexDrawer.takeDigit
  split
  next last =>
    rw [last, Nat.ascFactorial_succ, Nat.ascFactorial_zero, Nat.mul_one] at below
    exact ⟨Nat.le_of_lt_succ below, rfl, fun some => absurd rfl some⟩
  next more =>
    refine ⟨Nat.le_of_lt_succ (Nat.mod_lt _ (Nat.succ_pos _)), rfl, fun _ => ?_⟩
    obtain ⟨others, several⟩ : ∃ others, drawer.digits = others + 1 :=
      ⟨drawer.digits - 1, by omega⟩
    rw [several, ascFactorial_succ_left] at below
    simpa [several] using Nat.div_lt_of_lt_mul below

theorem InRange.next (inRange : drawer.InRange) (small : drawer.steps + 1 < UInt32.size)
    (source : σ) :
    (drawer.next source).1 ≤ drawer.steps ∧
      (drawer.next source).2.1.steps = drawer.steps + 1 ∧ (drawer.next source).2.1.InRange := by
  obtain ⟨steps, left, filled⟩ := inRange.refill small source
  have taken := filled.takeDigit left
  rw [steps] at taken
  exact taken

/-- The draw that a step takes its index from, before the digit is taken and after it. -/
theorem InRange.step {step : Nat} (inRange : drawer.InRange) (made : drawer.steps = step)
    (small : step + 1 < UInt32.size) (source : σ) :
    let filled := (drawer.refill source).1
    let taken := drawer.next source
    taken.1 ≤ step ∧ filled.digits ≠ 0 ∧
      filled.value < (step + 1).ascFactorial filled.digits ∧
      (taken.2.1.digits ≠ 0 →
        taken.2.1.value < (step + 2).ascFactorial taken.2.1.digits) := by
  subst made
  obtain ⟨steps, left, quotient⟩ := inRange.refill small source
  obtain ⟨index, advanced, rest⟩ := inRange.next small source
  rw [InRange, steps] at quotient
  rw [InRange, advanced] at rest
  exact ⟨index, left, quotient left, rest⟩

end IndexDrawer

section Shuffle

variable {σ : Type} [WordSource σ] {β : Type}

/-- A shuffle after so many steps. -/
def partlyShuffled (array : Array β) (source : σ) (steps : Nat) : Array β × IndexDrawer × σ :=
  (List.range steps).foldl shuffleStep (array, {}, source)

theorem shuffleStep_eq (state : Array β × IndexDrawer × σ) (step : Nat) :
    shuffleStep state step =
      let taken := state.2.1.next state.2.2
      (state.1.swapIfInBounds step taken.1, taken.2) := by
  obtain ⟨array, drawer, source⟩ := state
  simp only [shuffleStep]

/-- One step more swaps the element of its number with the one of the next index. -/
theorem partlyShuffled_succ (array : Array β) (source : σ) (steps : Nat) :
    partlyShuffled array source (steps + 1) =
      let state := partlyShuffled array source steps
      let taken := state.2.1.next state.2.2
      (state.1.swapIfInBounds steps taken.1, taken.2) := by
  rw [partlyShuffled, List.range_succ, List.foldl_append]
  exact shuffleStep_eq _ steps

theorem shuffle_eq_partlyShuffled (array : Array β) (source : σ) :
    shuffle array source =
      ((partlyShuffled array source array.size).1,
        (partlyShuffled array source array.size).2.2) :=
  rfl

/-- Along a shuffle the array keeps its size and the drawer stays in range. -/
theorem partlyShuffled_inRange (array : Array β) (source : σ) {steps : Nat}
    (few : steps < UInt32.size) :
    let state := partlyShuffled array source steps
    state.1.size = array.size ∧ state.2.1.steps = steps ∧ state.2.1.InRange := by
  induction steps with
  | zero => exact ⟨rfl, rfl, IndexDrawer.inRange_start⟩
  | succ steps ih =>
    obtain ⟨size, made, inRange⟩ := ih (by omega)
    have advanced := inRange.next (by rw [made]; exact few)
      (partlyShuffled array source steps).2.2
    rw [partlyShuffled_succ]
    exact ⟨by simpa using size, advanced.2.1.trans (congrArg Nat.succ made),
      advanced.2.2⟩

/-- The next step swaps in bounds, with an index from a draw that has a digit left for it. -/
theorem partlyShuffled_step (array : Array β) (source : σ) {step : Nat}
    (few : step + 1 < UInt32.size) :
    let state := partlyShuffled array source step
    let filled := (state.2.1.refill state.2.2).1
    let taken := state.2.1.next state.2.2
    state.1.size = array.size ∧ taken.1 ≤ step ∧
      (partlyShuffled array source (step + 1)).1 = state.1.swapIfInBounds step taken.1 ∧
      filled.digits ≠ 0 ∧ filled.value < (step + 1).ascFactorial filled.digits ∧
      (taken.2.1.digits ≠ 0 →
        taken.2.1.value < (step + 2).ascFactorial taken.2.1.digits) := by
  obtain ⟨same, made, inRange⟩ :=
    partlyShuffled_inRange array source (Nat.lt_of_succ_lt few)
  obtain ⟨index, drawn⟩ := inRange.step made few (partlyShuffled array source step).2.2
  exact ⟨same, index, by rw [partlyShuffled_succ], drawn⟩

end Shuffle

end Random

namespace Records

open KeyPartitions.Random

/-- Every count that a shuffle draws by words for is in reach of the keys. -/
theorem le_maxValue_of_lt {count : Nat} (small : count < UInt32.size - 1) :
    count ≤ Int64.maxValue.toInt := by
  have limit : Int64.maxValue.toInt = 9223372036854775807 := by decide
  simp only [UInt32.size] at small
  omega

theorem map_toInt_firstKeys {count : Nat} (small : count ≤ Int64.maxValue.toInt) :
    (firstKeys count).map Int64.toInt = (List.range' 1 count).map Int.ofNat := by
  have limit : Int64.maxValue.toInt < 2 ^ 63 := by decide
  rw [firstKeys, if_pos small, List.map_map, List.range'_eq_map_range, List.map_map]
  refine List.map_congr_left fun position inside => ?_
  have before := List.mem_range.mp inside
  simp only [Function.comp_apply]
  rw [Int64.toInt_ofNat_of_lt (by omega), Nat.add_comm]
  rfl

/-- Whatever words a source gives, the records have every key from one to the count once and
partitions below the bound. Every step of the shuffle swaps two elements of the array, as its index
is at most its number, and every draw is below its bound. -/
theorem generate?_stays_in_range {σ : Type} [WordSource σ] {count : Nat}
    (small : count < UInt32.size - 1) {partitions : Partition} (positive : 0 < partitions)
    (source : σ) :
    (∃ entries after, generate? count partitions source = some (entries, after) ∧
      entries.length = count ∧
      (entries.map fun entry => entry.key.toInt).Perm ((List.range' 1 count).map Int.ofNat) ∧
      ∀ entry ∈ entries, entry.partition < partitions) ∧
    (shuffle (firstKeys count).toArray source).1 =
      (partlyShuffled (firstKeys count).toArray source count).1 ∧
    (∀ step < count,
      let state := partlyShuffled (firstKeys count).toArray source step
      let filled := (state.2.1.refill state.2.2).1
      let taken := state.2.1.next state.2.2
      state.1.size = count ∧ taken.1 ≤ step ∧
        (partlyShuffled (firstKeys count).toArray source (step + 1)).1 =
          state.1.swapIfInBounds step taken.1 ∧
        filled.digits ≠ 0 ∧ filled.value < (step + 1).ascFactorial filled.digits ∧
        (taken.2.1.digits ≠ 0 →
          taken.2.1.value < (step + 2).ascFactorial taken.2.1.digits)) ∧
    ∀ bound, 0 < bound → ∀ source : σ, (below bound source).1 < bound := by
  have reachable := le_maxValue_of_lt small
  have size : (firstKeys count).toArray.size = count := by
    rw [List.size_toArray, length_firstKeys reachable]
  refine ⟨?made, ?whole, fun step before => ?swaps, fun bound some => below_lt some⟩
  case made =>
    obtain ⟨entries, after, records, generated⟩ := generate?_generated count positive source
    refine ⟨entries, after, records, generated.length_eq reachable, ?_, generated.bounded⟩
    have keys := generated.keys.map Int64.toInt
    rwa [map_toInt_firstKeys reachable, List.map_map] at keys
  case whole => rw [shuffle_eq_partlyShuffled, size]
  case swaps =>
    have few : step + 1 < UInt32.size := by omega
    obtain ⟨same, rest⟩ := partlyShuffled_step (firstKeys count).toArray source few
    exact ⟨same.trans size, rest⟩

/-- A bounded draw that carries, and with the same words a draw whose digits are all the largest
of their bases. -/
theorem generate?_stays_in_range_of_carry :
    let source : Replay := ⟨#[4294967294, 4294967295], 0⟩
    let indexAt (step : Nat) :=
      let state := partlyShuffled (firstKeys 5).toArray source step
      (state.2.1.next state.2.2).1
    5 < UInt32.size - 1 ∧ (0 : Partition) < 4 ∧
      (generate? 5 4 source).map (fun made => made.1.length) = some 5 ∧
      indexAt 4 ≤ 4 ∧ (List.range 5).map indexAt = [0, 1, 2, 3, 4] ∧
      (below 4294967295 source).1 < 4294967295 ∧ (below 4294967295 source).1 = 4294967294 := by
  intro source indexAt
  have small : 5 < UInt32.size - 1 := by decide
  have positive : (0 : Partition) < 4 := by decide
  obtain ⟨⟨entries, after, records, length, -⟩, -, swaps, bounded⟩ :=
    generate?_stays_in_range small positive source
  refine ⟨small, positive, ?_, (swaps 4 (by decide)).2.1, by decide +kernel,
    bounded 4294967295 (by decide) source, by decide +kernel⟩
  rw [records, Option.map_some, length]

end Records

end KeyPartitions
