import KeyPartitions.Proofs.IndexDrawing
import Mathlib.Data.List.Perm.Basic

/-!
# Every arrangement

A bounded draw can give every number below its bound, so a draw of several digits can give every
list of them, and the swaps of a shuffle lead to every order of an array: the last swap brings the
last element to its place, and the swaps before it arrange the others. So there are words on which
the records come out in any order of the keys and with any partitions.
-/
namespace KeyPartitions

namespace Random

/-! ### Words that a source begins with -/

section Gives

variable {σ : Type} [WordSource σ]

/-- The source gives these words one after another and is `after` behind them. -/
def Gives : List UInt32 → (source after : σ) → Prop
  | [], source, after => source = after
  | word :: rest, source, after =>
    (WordSource.next source).1 = word ∧ Gives rest (WordSource.next source).2 after

theorem gives_append {first second : List UInt32} {source after : σ} :
    Gives (first ++ second) source after ↔
      ∃ between, Gives first source between ∧ Gives second between after := by
  induction first generalizing source with
  | nil => simp [Gives]
  | cons word rest ih => simp [Gives, ih, and_assoc]

/-- A replay begins with its words. -/
theorem gives_replay (words : List UInt32) :
    Gives words (⟨words.toArray, 0⟩ : Replay) ⟨words.toArray, words.length⟩ := by
  -- The words that were used stand before those to come.
  have behind (used rest : List UInt32) (all : used ++ rest = words) :
      Gives rest (⟨words.toArray, used.length⟩ : Replay) ⟨words.toArray, words.length⟩ := by
    induction rest generalizing used with
    | nil => simp [Gives, ← all]
    | cons word rest ih =>
      have inside : used.length < words.length := by simp [← all]
      have given : words[used.length] = word := by simp [← all]
      refine ⟨?_, ?_⟩
      · simp [WordSource.next, Nat.mod_eq_of_lt inside, inside, given]
      · simpa [WordSource.next] using ih (used ++ [word]) (by simpa using all)
  exact behind [] words rfl

end Gives

/-- Whatever lies in bounds can be drawn: with the least word that the scaling takes there, and a
second word that does not carry. -/
theorem exists_words_below {bound value : Nat} (small : bound < UInt32.size)
    (inside : value < bound) :
    ∃ words, ∀ (σ : Type) [WordSource σ] (source after : σ), Gives words source after →
      below bound source = (value, after) := by
  simp only [UInt32.size] at small
  -- The least multiple of the bound from the scaled value on passes it by less than the bound.
  obtain ⟨least, extra, scaled, short⟩ :
      ∃ least extra, least * bound = value * 4294967296 + extra ∧ extra < bound := by
    let start := value * 4294967296 + (bound - 1)
    have parts := Nat.div_add_mod' start bound
    have rest := Nat.mod_lt start (Nat.zero_lt_of_lt inside)
    exact ⟨start / bound, bound - 1 - start % bound, by omega, by omega⟩
  have fits : least < 4294967296 := by
    by_contra large
    have product := Nat.mul_le_mul_right bound (Nat.le_of_not_lt large)
    omega
  have word : (UInt32.ofNat least).toNat = least := UInt32.toNat_ofNat_of_lt' fits
  have whole : least * bound / 4294967296 = value := by omega
  have fraction : least * bound % 4294967296 = extra := by omega
  by_cases carries : 4294967296 - bound < extra
  · refine ⟨[UInt32.ofNat least, 0], fun σ _ source after gives => ?_⟩
    obtain ⟨first, second, rfl⟩ := gives
    have kept : ¬ 4294967296 ≤ extra := by omega
    simp [below, UInt32.size, first, second, word, whole, fraction, carries, kept]
  · refine ⟨[UInt32.ofNat least], fun σ _ source after gives => ?_⟩
    obtain ⟨first, rfl⟩ := gives
    simp [below, UInt32.size, first, word, whole, fraction, carries]

/-! ### Words for indices -/

/-- The drawer gives these indices one after another, and the source is `after` behind them. -/
def Draws {σ : Type} [WordSource σ] :
    List Nat → IndexDrawer → (source after : σ) → Prop
  | [], _, source, after => source = after
  | index :: rest, drawer, source, after =>
    let taken := drawer.next source
    taken.1 = index ∧ Draws rest taken.2.1 taken.2.2 after

/-- There are words on which the drawer gives these indices. -/
def CanDraw (indices : List Nat) (drawer : IndexDrawer) : Prop :=
  ∃ words, ∀ (σ : Type) [WordSource σ] (source after : σ), Gives words source after →
    Draws indices drawer source after

/-- Indices for the steps from `step` on, each from zero to the number of its step. -/
def Admissible : (step : Nat) → List Nat → Prop
  | _, [] => True
  | step, index :: rest => index ≤ step ∧ Admissible (step + 1) rest

theorem admissible_concat {step index : Nat} {indices : List Nat} :
    Admissible step (indices ++ [index]) ↔
      Admissible step indices ∧ index ≤ step + indices.length := by
  induction indices generalizing step with
  | nil => simp [Admissible]
  | cons first rest ih => simp [Admissible, ih, and_assoc, Nat.add_assoc, Nat.add_comm 1]

theorem canDraw_nil (drawer : IndexDrawer) : CanDraw [] drawer :=
  ⟨[], fun _ _ _ _ gives => gives⟩

/-- A digit that is left is drawn without a word. -/
theorem CanDraw.cons {drawer next : IndexDrawer} {index : Nat} {rest : List Nat}
    (can : CanDraw rest next) (left : drawer.digits ≠ 0)
    (taken : drawer.takeDigit = (index, next)) : CanDraw (index :: rest) drawer := by
  obtain ⟨words, draws⟩ := can
  refine ⟨words, fun σ _ source after gives => ?_⟩
  have step : drawer.next source = (index, next, source) := by
    simp [IndexDrawer.next, IndexDrawer.refill_of_left left, taken]
  rw [Draws, step]
  exact ⟨rfl, draws σ source after gives⟩

/-- A value of several digits is its first one and a multiple of that base. -/
theorem takeDigit_mul_add {step index fewer : Nat} (before : index ≤ step) (several : fewer ≠ 0)
    (quotient : Nat) :
    (⟨step, quotient * (step + 1) + index, fewer + 1⟩ : IndexDrawer).takeDigit =
      (index, ⟨step + 1, quotient, fewer⟩) := by
  have inside : index < step + 1 := Nat.lt_succ_of_le before
  have digit : (quotient * (step + 1) + index) % (step + 1) = index := by
    rw [Nat.mul_add_mod', Nat.mod_eq_of_lt inside]
  have others : (quotient * (step + 1) + index) / (step + 1) = quotient := by
    rw [Nat.mul_comm, Nat.mul_add_div (Nat.succ_pos step), Nat.div_eq_of_lt inside, Nat.add_zero]
  simp [IndexDrawer.takeDigit, several, digit, others]

theorem mul_add_lt_ascFactorial {step index fewer quotient : Nat} (before : index ≤ step)
    (below : quotient < (step + 2).ascFactorial fewer) :
    quotient * (step + 1) + index < (step + 1).ascFactorial (fewer + 1) := by
  rw [ascFactorial_succ_left]
  calc quotient * (step + 1) + index < (quotient + 1) * (step + 1) := by
        rw [Nat.succ_mul]
        omega
    _ ≤ (step + 2).ascFactorial fewer * (step + 1) := Nat.mul_le_mul_right _ below
    _ = (step + 1) * (step + 2).ascFactorial fewer := Nat.mul_comm _ _

/-- An empty drawer draws anew, and then goes on as one that has its digits. -/
theorem canDraw_of_empty {drawer : IndexDrawer} {indices : List Nat} (empty : drawer.digits = 0)
    (small : drawer.steps + 1 < UInt32.size)
    (filled : ∀ digits, 0 < digits → ∃ value < (drawer.steps + 1).ascFactorial digits,
      CanDraw indices ⟨drawer.steps, value, digits⟩) : CanDraw indices drawer := by
  cases indices with
  | nil => exact canDraw_nil drawer
  | cons index rest =>
    obtain ⟨digits, some, fits, refilled⟩ := IndexDrawer.refill_of_empty empty small
    obtain ⟨value, inside, later, draws⟩ := filled digits some
    obtain ⟨first, drawn⟩ := exists_words_below fits inside
    refine ⟨first ++ later, fun σ _ source after gives => ?_⟩
    obtain ⟨between, givesFirst, givesLater⟩ := gives_append.mp gives
    have step : drawer.next source =
        (⟨drawer.steps, value, digits⟩ : IndexDrawer).next between := by
      have left : (⟨drawer.steps, value, digits⟩ : IndexDrawer).digits ≠ 0 := Nat.ne_of_gt some
      simp only [IndexDrawer.next, refilled, drawn σ source between givesFirst,
        IndexDrawer.refill_of_left left]
    rw [Draws, step]
    exact draws σ between after givesLater

/-- Any admissible indices can be drawn: by an empty drawer whatever its value, and by one that has
digits left with some value in range. -/
theorem canDraw {indices : List Nat} {step : Nat} (admissible : Admissible step indices)
    (small : step + indices.length < UInt32.size) :
    (∀ value, CanDraw indices ⟨step, value, 0⟩) ∧
    ∀ digits, 0 < digits → ∃ value < (step + 1).ascFactorial digits,
      CanDraw indices ⟨step, value, digits⟩ := by
  induction indices generalizing step with
  | nil =>
    exact ⟨fun value => canDraw_nil _,
      fun digits _ => ⟨0, Nat.ascFactorial_pos _ _, canDraw_nil _⟩⟩
  | cons index rest ih =>
    obtain ⟨before, others⟩ := admissible
    rw [List.length_cons] at small
    obtain ⟨empty, filled⟩ := ih others (by omega)
    have some : ∀ digits, 0 < digits → ∃ value < (step + 1).ascFactorial digits,
        CanDraw (index :: rest) ⟨step, value, digits⟩ := by
      intro digits left
      by_cases last : digits = 1
      · -- The last digit is the whole value.
        subst last
        refine ⟨index, ?_, (empty index).cons Nat.one_ne_zero rfl⟩
        simpa [Nat.ascFactorial_succ] using Nat.lt_succ_of_le before
      · -- The quotient is a value for the others.
        obtain ⟨fewer, rfl⟩ : ∃ fewer, digits = fewer + 1 := ⟨digits - 1, by omega⟩
        obtain ⟨quotient, below, can⟩ := filled fewer (by omega)
        exact ⟨quotient * (step + 1) + index, mul_add_lt_ascFactorial before below,
          can.cons (Nat.succ_ne_zero fewer) (takeDigit_mul_add before (by omega) quotient)⟩
    exact ⟨fun value => canDraw_of_empty rfl (by simp; omega) some, some⟩

/-! ### Swaps for an order -/

section Swaps

variable {β : Type}

/-- The swaps of a shuffle that draws these indices from `step` on. -/
def swapAlong (array : Array β) : (step : Nat) → List Nat → Array β
  | _, [] => array
  | step, index :: rest => swapAlong (array.swapIfInBounds step index) (step + 1) rest

theorem swapAlong_concat (array : Array β) (step index : Nat) (indices : List Nat) :
    swapAlong array step (indices ++ [index]) =
      (swapAlong array step indices).swapIfInBounds (step + indices.length) index := by
  induction indices generalizing array step with
  | nil => rfl
  | cons first rest ih =>
    rw [List.cons_append, swapAlong, ih, swapAlong, List.length_cons]
    congr 1
    omega

theorem foldl_shuffleStep {σ : Type} [WordSource σ] {indices : List Nat} {drawer : IndexDrawer}
    {source after : σ} (draws : Draws indices drawer source after) (array : Array β) (step : Nat) :
    ∃ last, (List.range' step indices.length).foldl shuffleStep (array, drawer, source) =
      (swapAlong array step indices, last, after) := by
  induction indices generalizing drawer source array step with
  | nil => exact ⟨drawer, congrArg (array, drawer, ·) draws⟩
  | cons index rest ih =>
    obtain ⟨rfl, others⟩ := draws
    rw [List.length_cons, List.range'_succ, List.foldl_cons, shuffleStep_eq]
    exact ih others _ _

/-- An order that differs from an array only up to a step is made by the swap of this step from one
that differs from it only before. -/
theorem exists_swap {array target : Array β} (order : target.toList.Perm array.toList) {step : Nat}
    (few : step < array.size)
    (same : target.toList.drop (step + 1) = array.toList.drop (step + 1)) :
    ∃ before : Array β, ∃ index ≤ step, before.toList.Perm array.toList ∧
      before.toList.drop step = array.toList.drop step ∧
      before.swapIfInBounds step index = target := by
  have size : target.size = array.size := by simpa using order.length_eq
  -- Both have the same elements up to the step, so that of the step has a place among them.
  have front : (target.toList.take (step + 1)).Perm (array.toList.take (step + 1)) := by
    rw [← List.take_append_drop (step + 1) target.toList,
      ← List.take_append_drop (step + 1) array.toList, same] at order
    exact (List.perm_append_right_iff _).mp order
  have member : array[step] ∈ target.toList.take (step + 1) :=
    front.mem_iff.mpr (List.mem_take_iff_getElem.mpr ⟨step, by simp; omega, by simp⟩)
  obtain ⟨index, inside, found⟩ := List.mem_take_iff_getElem.mp member
  obtain ⟨low, bound⟩ : index < step + 1 ∧ index < target.size :=
    Nat.lt_min.mp (by simpa using inside)
  have place : target[index] = array[step] := by simpa using found
  -- Swapped with the element of the step it is where it was at first.
  let before := target.swap step index (by omega) bound
  have sizeBefore : before.size = target.size := Array.size_swap
  refine ⟨before, index, Nat.le_of_lt_succ low, (Array.swap_perm _ _).toList.trans order, ?_, ?_⟩
  · have head : before[step] = array[step] := by simp [before, place]
    have tail : before.toList.drop (step + 1) = target.toList.drop (step + 1) := by
      refine List.ext_getElem? fun position => ?_
      have apart : index ≠ step + 1 + position ∧ step ≠ step + 1 + position := by omega
      simp [before, apart]
    have inBefore : step < before.toList.length := by simp; omega
    have inArray : step < array.toList.length := by simpa using few
    rw [List.drop_eq_getElem_cons inBefore, tail, same, List.drop_eq_getElem_cons inArray]
    simpa using head
  · rw [Array.swapIfInBounds_def, dif_pos (by omega), dif_pos (by omega)]
    exact Array.swap_swap _ _

/-- Every order of an array is made by swaps with elements at or before each step. -/
theorem exists_indices {array target : Array β} (order : target.toList.Perm array.toList) :
    ∃ indices, Admissible 0 indices ∧ indices.length = array.size ∧
      swapAlong array 0 indices = target := by
  -- By induction on the number of steps, for all orders that differ from the array before it only.
  suffices made : ∀ steps ≤ array.size, ∀ target : Array β, target.toList.Perm array.toList →
      target.toList.drop steps = array.toList.drop steps →
        ∃ indices, Admissible 0 indices ∧ indices.length = steps ∧
          swapAlong array 0 indices = target by
    have size : target.size = array.size := by simpa using order.length_eq
    have nothing {all : Array β} (size : all.size = array.size) :
        all.toList.drop array.size = [] := by simp [← size]
    exact made array.size (Nat.le_refl _) target order ((nothing size).trans (nothing rfl).symm)
  intro steps
  induction steps with
  | zero =>
    intro _ target _ same
    exact ⟨[], trivial, rfl, Array.toList_inj.mp (by simpa [swapAlong] using same.symm)⟩
  | succ steps ih =>
    intro few target order same
    obtain ⟨before, index, low, orderBefore, behind, swapped⟩ := exists_swap order few same
    obtain ⟨indices, admissible, length, made⟩ := ih (by omega) before orderBefore behind
    refine ⟨indices ++ [index], admissible_concat.mpr ⟨admissible, by omega⟩, ?_, ?_⟩
    · rw [List.length_append, length, List.length_singleton]
    · rw [swapAlong_concat, made, length, Nat.zero_add, swapped]

/-- A shuffle can give every order of an array. -/
theorem exists_words_shuffle {array target : Array β} (small : array.size < UInt32.size)
    (order : target.toList.Perm array.toList) :
    ∃ words, ∀ (σ : Type) [WordSource σ] (source after : σ), Gives words source after →
      shuffle array source = (target, after) := by
  obtain ⟨indices, admissible, length, made⟩ := exists_indices order
  -- The first step takes the one digit that a drawer has at the start, which is zero.
  obtain ⟨words, draws⟩ : CanDraw indices {} := by
    cases indices with
    | nil => exact canDraw_nil _
    | cons index rest =>
      obtain ⟨zero, others⟩ := admissible
      obtain rfl := Nat.le_zero.mp zero
      rw [List.length_cons] at length
      exact ((canDraw others (by omega)).1 0).cons Nat.one_ne_zero rfl
  refine ⟨words, fun σ _ source after gives => ?_⟩
  obtain ⟨last, shuffled⟩ := foldl_shuffleStep (draws σ source after gives) array 0
  rw [length, made, ← List.range_eq_range'] at shuffled
  rw [shuffle, shuffled]

end Swaps

end Random

namespace Records

open KeyPartitions.Random

/-- Any partitions below the bound can be drawn for keys. -/
theorem exists_words_drawEntry {partitions : Partition} {entries : List Entry}
    (bounded : ∀ entry ∈ entries, entry.partition < partitions) :
    ∃ words, ∀ (σ : Type) [WordSource σ] (source after : σ), Gives words source after →
      ∀ before, (entries.map Entry.key).foldl (drawEntry partitions.toNat) (before, source) =
        (entries.reverse ++ before, after) := by
  induction entries with
  | nil =>
    refine ⟨[], fun σ _ source after gives before => ?_⟩
    exact congrArg (before, ·) gives
  | cons entry rest ih =>
    obtain ⟨inside, others⟩ := List.forall_mem_cons.mp bounded
    obtain ⟨first, drawn⟩ :=
      exists_words_below partitions.toNat_lt (UInt32.lt_iff_toNat_lt.mp inside)
    obtain ⟨later, entries⟩ := ih others
    refine ⟨first ++ later, fun σ _ source after gives before => ?_⟩
    obtain ⟨between, givesFirst, givesLater⟩ := gives_append.mp gives
    have step : drawEntry partitions.toNat (before, source) entry.key =
        (entry :: before, between) := by
      simp [drawEntry, drawn σ source between givesFirst]
    rw [List.map_cons, List.foldl_cons, step, entries σ between after givesLater, List.reverse_cons,
      List.append_assoc]
    rfl

/-- For every order of the keys and all partitions below the bound there are words on which these
records are generated. A source that begins with the words gives the records whatever comes behind,
and a replay of them uses each word once. -/
theorem exists_words_generate? {count : Nat} (small : count < UInt32.size - 1)
    {partitions : Partition} (positive : 0 < partitions) {entries : List Entry}
    (keys : (entries.map fun entry => entry.key.toInt).Perm ((List.range' 1 count).map Int.ofNat))
    (bounded : ∀ entry ∈ entries, entry.partition < partitions) :
    ∃ words : List UInt32,
      generate? count partitions (⟨words.toArray, 0⟩ : Replay) =
        some (entries, ⟨words.toArray, words.length⟩) ∧
      ∀ (σ : Type) [WordSource σ] (source after : σ), Gives words source after →
        generate? count partitions source = some (entries, after) := by
  have reachable := le_maxValue_of_lt small
  have nonzero : partitions ≠ 0 := fun zero => absurd positive (by simp [zero])
  have order : (entries.map Entry.key).toArray.toList.Perm (firstKeys count).toArray.toList := by
    have injective : Function.Injective Int64.toInt := fun _ _ same => Int64.toInt_inj.mp same
    apply (List.map_perm_map_iff injective).mp
    simpa [map_toInt_firstKeys reachable, Function.comp_def] using keys
  have size : (firstKeys count).toArray.size < UInt32.size := by
    rw [List.size_toArray, length_firstKeys reachable]
    omega
  obtain ⟨first, shuffled⟩ := exists_words_shuffle size order
  obtain ⟨later, drawn⟩ := exists_words_drawEntry bounded
  suffices made : ∀ (σ : Type) [WordSource σ] (source after : σ),
      Gives (first ++ later) source after →
        generate? count partitions source = some (entries, after) by
    exact ⟨first ++ later, made _ _ _ (gives_replay _), made⟩
  intro σ _ source after gives
  obtain ⟨between, givesFirst, givesLater⟩ := gives_append.mp gives
  have entriesDrawn := drawn σ between after givesLater []
  rw [List.append_nil] at entriesDrawn
  simp [generate?, nonzero, shuffled σ source between givesFirst, entriesDrawn]

/-- Three keys in descending order, the largest partition first. -/
theorem exists_words_generate?_of_descending :
    let entries : List Entry := [⟨3, 4294967294⟩, ⟨2, 0⟩, ⟨1, 7⟩]
    3 < UInt32.size - 1 ∧ (0 : Partition) < 4294967295 ∧
      (entries.map fun entry => entry.key.toInt).Perm ((List.range' 1 3).map Int.ofNat) ∧
      (∀ entry ∈ entries, entry.partition < 4294967295) ∧
      ∃ words : List UInt32,
        generate? 3 4294967295 (⟨words.toArray, 0⟩ : Replay) =
          some (entries, ⟨words.toArray, words.length⟩) := by
  intro entries
  have small : 3 < UInt32.size - 1 := by decide
  have positive : (0 : Partition) < 4294967295 := by decide
  have keys : (entries.map fun entry => entry.key.toInt).Perm
      ((List.range' 1 3).map Int.ofNat) := by decide
  have bounded : ∀ entry ∈ entries, entry.partition < 4294967295 := by decide
  obtain ⟨words, made, -⟩ := exists_words_generate? small positive keys bounded
  exact ⟨small, positive, keys, bounded, words, made⟩

end Records

end KeyPartitions
