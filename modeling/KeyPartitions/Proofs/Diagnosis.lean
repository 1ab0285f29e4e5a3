import KeyPartitions.Proofs.Reachable
import KeyPartitions.Table.Diagnostics
import Mathlib.Algebra.Order.BigOperators.Group.List
import Mathlib.Algebra.Order.Field.Rat
import Mathlib.Data.Nat.Cast.Order.Field
import Mathlib.Order.Bounds.Basic

/-!
# Diagnostics of reachable tables

The walk over the buckets knows nothing of the count of a table. What it finds agrees with the count
all the same, as the chains of a well-formed table hold as many entries as are counted. From there
on it is about lengths alone: each chain that is not empty has at least one entry, none has more
than the longest, and beside the longest one each of the others has its entry too.
-/
namespace KeyPartitions

/-! ### Lengths -/

/-- How many of the lengths are not zero. -/
def occupied (lengths : List Nat) : Nat := lengths.countP (0 < ·)

@[simp] theorem occupied_zero_cons (rest : List Nat) : occupied (0 :: rest) = occupied rest := by
  simp [occupied]

@[simp] theorem occupied_succ_cons (length : Nat) (rest : List Nat) :
    occupied ((length + 1) :: rest) = occupied rest + 1 := by
  simp [occupied]

theorem occupied_add_count (lengths : List Nat) :
    occupied lengths + lengths.count 0 = lengths.length := by
  induction lengths with
  | nil => rfl
  | cons length rest ih => cases length <;> simp <;> omega

theorem occupied_le_sum (lengths : List Nat) : occupied lengths ≤ lengths.sum := by
  induction lengths with
  | nil => exact Nat.le_refl _
  | cons length rest ih => cases length <;> simp <;> omega

theorem sum_le_mul_occupied {lengths : List Nat} {longest : Nat}
    (bound : ∀ length ∈ lengths, length ≤ longest) : lengths.sum ≤ longest * occupied lengths := by
  induction lengths with
  | nil => exact Nat.zero_le _
  | cons length rest ih =>
    obtain ⟨here, others⟩ := List.forall_mem_cons.mp bound
    have below := ih others
    cases length with
    | zero => simpa using below
    | succ length =>
      rw [List.sum_cons, occupied_succ_cons, Nat.mul_succ]
      omega

/-- Beside one of the lengths there is at least one entry for each of the others. -/
theorem add_occupied_le {lengths : List Nat} {length : Nat} (member : length ∈ lengths)
    (positive : 0 < length) : length + occupied lengths ≤ lengths.sum + 1 := by
  induction lengths with
  | nil => cases member
  | cons first rest ih =>
    rcases List.mem_cons.mp member with rfl | later
    · -- The others are all behind it.
      have others := occupied_le_sum rest
      cases length with
      | zero => cases positive
      | succ length =>
        rw [List.sum_cons, occupied_succ_cons]
        omega
    · have below := ih later
      cases first with
      | zero => simpa using below
      | succ first =>
        rw [List.sum_cons, occupied_succ_cons]
        omega

theorem isGreatest_foldl_max (lengths : List Nat) (start : Nat) :
    IsGreatest {length | length ∈ start :: lengths} (lengths.foldl max start) := by
  induction lengths generalizing start with
  | nil => simp [IsGreatest, upperBounds]
  | cons first rest ih =>
    -- The greater one of the first two stands for both.
    obtain ⟨member, bound⟩ := ih (max start first)
    rw [List.foldl_cons]
    constructor
    · rcases List.mem_cons.mp member with same | later
      · rw [same]
        rcases Nat.le_total start first with below | above
        · simp [Nat.max_eq_right below]
        · simp [Nat.max_eq_left above]
      · exact List.mem_cons_of_mem _ (List.mem_cons_of_mem _ later)
    · have both : max start first ≤ rest.foldl max (max start first) := bound List.mem_cons_self
      intro length among
      rcases List.mem_cons.mp among with rfl | among
      · exact Nat.le_trans (Nat.le_max_left _ _) both
      · rcases List.mem_cons.mp among with rfl | later
        · exact Nat.le_trans (Nat.le_max_right _ _) both
        · exact bound (List.mem_cons_of_mem _ later)

/-! ### Chains -/

/-- The buckets that hold an entry. -/
def Diagnostics.usedBuckets {α : Type} (diagnostics : Diagnostics α) : Nat :=
  diagnostics.capacity - diagnostics.emptyBuckets

namespace Table

variable {α : Type}

/-- The table with its load measured exactly. No measure depends on the limit. -/
def exactly (table : Table α) : Table Rat := { table with loadLimit := 0 }

theorem chainLengths_eq (table : Table α) :
    table.chainLengths = (List.range table.capacity).map fun bucket =>
      (table.chainAt bucket).length := by
  rw [chainLengths, toList_buckets, List.map_map]
  rfl

theorem length_chainLengths (table : Table α) : table.chainLengths.length = table.capacity := by
  simp [chainLengths_eq]

theorem WellFormed.sum_chainLengths {table : Table α} (wf : table.WellFormed) :
    table.chainLengths.sum = table.count := by
  rw [wf.counted, entries, List.length_flatten, chainLengths]

theorem count_chainLengths (table : Table α) :
    table.chainLengths.count 0 =
      (List.range table.capacity).countP fun bucket => table.chainAt bucket = [] := by
  rw [chainLengths_eq, List.count, List.countP_map]
  congr 1
  funext bucket
  simp [beq_eq_decide]

theorem WellFormed.isGreatest_chainLengths {table : Table α} (wf : table.WellFormed) :
    IsGreatest {length | ∃ bucket < table.capacity, (table.chainAt bucket).length = length}
      (table.chainLengths.foldl max 0) := by
  obtain ⟨member, bound⟩ := isGreatest_foldl_max table.chainLengths 0
  have lengths : ∀ length, length ∈ table.chainLengths ↔
      ∃ bucket < table.capacity, (table.chainAt bucket).length = length := by
    simp [chainLengths_eq]
  constructor
  · rcases List.mem_cons.mp member with zero | found
    · -- All chains are empty, so any of them is the longest.
      have first := (lengths _).mpr ⟨0, wf.nonempty, rfl⟩
      have below := bound (List.mem_cons_of_mem _ first)
      rw [zero] at below ⊢
      exact ⟨0, wf.nonempty, Nat.le_zero.mp below⟩
    · exact (lengths _).mp found
  · intro length found
    exact bound (List.mem_cons_of_mem _ ((lengths length).mpr found))

variable [LoadScale α]

/-- The diagnostics of a table against its count and its chains. Averages and quotients are those
of the same table with exact measures. -/
structure Consistent (table : Table α) : Prop where
  entries : table.diagnostics.entries = table.count
  emptyBuckets : table.diagnostics.emptyBuckets =
    (List.range table.capacity).countP fun bucket => table.chainAt bucket = []
  longestChain :
    IsGreatest {length | ∃ bucket < table.capacity, (table.chainAt bucket).length = length}
      table.diagnostics.longestChain
  /-- The number of used buckets is no truncated difference. -/
  emptyBuckets_le : table.diagnostics.emptyBuckets ≤ table.diagnostics.capacity
  vacant : table.count = 0 →
    table.diagnostics.usedBuckets = 0 ∧ table.diagnostics.longestChain = 0 ∧
      table.exactly.diagnostics.averageChain = 0 ∧ table.exactly.diagnostics.chainSkew = 0
  used : 0 < table.count → 1 ≤ table.diagnostics.usedBuckets ∧
    table.diagnostics.usedBuckets ≤ min table.count table.capacity ∧
    table.count ≤ table.diagnostics.longestChain * table.diagnostics.usedBuckets ∧
    table.diagnostics.longestChain ≤ table.count - table.diagnostics.usedBuckets + 1
  average : 0 < table.count →
    table.exactly.diagnostics.averageChain = table.count / table.diagnostics.usedBuckets ∧
      1 ≤ table.exactly.diagnostics.averageChain ∧
      table.exactly.diagnostics.averageChain ≤ table.diagnostics.longestChain
  skew : 0 < table.count →
    table.exactly.diagnostics.chainSkew =
        table.diagnostics.longestChain / table.exactly.diagnostics.averageChain ∧
      1 ≤ table.exactly.diagnostics.chainSkew

theorem usedBuckets_eq (table : Table α) :
    table.diagnostics.usedBuckets = occupied table.chainLengths := by
  have all := occupied_add_count table.chainLengths
  rw [length_chainLengths] at all
  exact Nat.sub_eq_of_eq_add all.symm

theorem usedBuckets_add_emptyBuckets (table : Table α) :
    table.diagnostics.usedBuckets + table.diagnostics.emptyBuckets = table.capacity := by
  rw [usedBuckets_eq, ← length_chainLengths]
  exact occupied_add_count _

/-- How many chains the entries are spread over, and how long these can be. -/
structure Spread (table : Table α) : Prop where
  used_le : table.diagnostics.usedBuckets ≤ table.count
  count_le : table.count ≤ table.diagnostics.longestChain * table.diagnostics.usedBuckets
  longest_le : table.diagnostics.longestChain ≤ table.count
  add_used_le : 0 < table.diagnostics.longestChain →
    table.diagnostics.longestChain + table.diagnostics.usedBuckets ≤ table.count + 1

theorem WellFormed.spread {table : Table α} (wf : table.WellFormed) : table.Spread := by
  obtain ⟨member, bound⟩ := isGreatest_foldl_max table.chainLengths 0
  constructor <;> rw [← wf.sum_chainLengths]
  case used_le =>
    rw [usedBuckets_eq]
    exact occupied_le_sum _
  case count_le =>
    rw [usedBuckets_eq]
    exact sum_le_mul_occupied fun length among => bound (List.mem_cons_of_mem _ among)
  case longest_le =>
    rcases List.mem_cons.mp member with zero | found
    · exact Nat.le_trans (Nat.le_of_eq zero) (Nat.zero_le _)
    · exact List.le_sum_of_mem found
  case add_used_le =>
    intro positive
    rw [usedBuckets_eq]
    rcases List.mem_cons.mp member with zero | found
    · exact absurd zero (Nat.pos_iff_ne_zero.mp positive)
    · exact add_occupied_le found positive

theorem averageChain_eq (table : Table α) :
    table.exactly.diagnostics.averageChain =
      if table.diagnostics.usedBuckets = 0 then 0
      else (table.count : Rat) / table.diagnostics.usedBuckets := rfl

theorem chainSkew_eq (table : Table α) :
    table.exactly.diagnostics.chainSkew =
      if table.exactly.diagnostics.averageChain = 0 then 0
      else (table.diagnostics.longestChain : Rat) / table.exactly.diagnostics.averageChain := by
  simp only [Diagnostics.chainSkew, LoadScale.isZero, beq_iff_eq]
  rfl

/-- Where the average is a quotient, it lies between one and the length of the longest chain. -/
theorem WellFormed.average_within {table : Table α} (wf : table.WellFormed)
    (some : 0 < table.diagnostics.usedBuckets) :
    table.exactly.diagnostics.averageChain = table.count / table.diagnostics.usedBuckets ∧
      1 ≤ table.exactly.diagnostics.averageChain ∧
      table.exactly.diagnostics.averageChain ≤ table.diagnostics.longestChain := by
  have positive : (0 : Rat) < table.diagnostics.usedBuckets := Nat.cast_pos.mpr some
  have quotient : table.exactly.diagnostics.averageChain =
      table.count / table.diagnostics.usedBuckets := by
    rw [averageChain_eq, if_neg (Nat.pos_iff_ne_zero.mp some)]
  refine ⟨quotient, ?_, ?_⟩
  · rw [quotient, one_le_div₀ positive]
    exact Nat.cast_le.mpr wf.spread.used_le
  · rw [quotient, div_le_iff₀ positive, ← Nat.cast_mul]
    exact Nat.cast_le.mpr wf.spread.count_le

theorem WellFormed.consistent {table : Table α} (wf : table.WellFormed) : table.Consistent := by
  have parts := table.usedBuckets_add_emptyBuckets
  obtain ⟨few, full, longest, beside⟩ := wf.spread
  -- A product that is not zero has no factor that is.
  have some (entries : 0 < table.count) :
      0 < table.diagnostics.longestChain ∧ 0 < table.diagnostics.usedBuckets :=
    CanonicallyOrderedAdd.mul_pos.mp (Nat.lt_of_lt_of_le entries full)
  constructor
  case entries => rfl
  case emptyBuckets => exact table.count_chainLengths
  case longestChain => exact wf.isGreatest_chainLengths
  case emptyBuckets_le => exact Nat.le.intro ((Nat.add_comm _ _).trans parts)
  case vacant =>
    intro none
    have unused : table.diagnostics.usedBuckets = 0 := by omega
    have average : table.exactly.diagnostics.averageChain = 0 := by
      rw [averageChain_eq, if_pos unused]
    refine ⟨unused, by omega, average, ?_⟩
    rw [chainSkew_eq, if_pos average]
  case used =>
    intro entries
    obtain ⟨positive, used⟩ := some entries
    have room := beside positive
    refine ⟨used, Nat.le_min.mpr ⟨few, ?_⟩, full, ?_⟩ <;> omega
  case average => exact fun entries => wf.average_within (some entries).2
  case skew =>
    intro entries
    obtain ⟨-, one, below⟩ := wf.average_within (some entries).2
    have positive := lt_of_lt_of_le one_pos one
    have skew := table.chainSkew_eq
    rw [if_neg (ne_of_gt positive)] at skew
    refine ⟨skew, ?_⟩
    rw [skew, one_le_div₀ positive]
    exact below

/-- The diagnostics of every reachable table agree with its entries and chains. -/
theorem diagnostics_consistent (memory : Memory) {start : Table α} (made : Made memory start)
    (operations : List Operation) : (start.run memory operations).Consistent :=
  (made.wellFormed.run memory operations).consistent

/-- Two entries in one bucket and one in the other. -/
theorem diagnostics_consistent_of_uneven :
    let memory : Memory := ⟨fun _ => true, fun _ _ => true⟩
    let start : Table Rat := { crowded 2 with hash := Int64.toUInt64 }
    let table := start.run memory [.extend [⟨1, 10⟩, ⟨2, 20⟩, ⟨3, 30⟩]]
    Made memory start ∧ table.Consistent ∧ table.diagnostics.usedBuckets = 2 ∧
      table.diagnostics.longestChain = 2 ∧ table.exactly.diagnostics.averageChain = 3 / 2 ∧
      table.exactly.diagnostics.chainSkew = 4 / 3 := by
  intro memory start table
  have made : Made memory start := made_empty rfl one_pos two_pos _
  exact ⟨made, diagnostics_consistent memory made _, by decide +kernel, by decide +kernel,
    by decide +kernel, by decide +kernel⟩

end Table

end KeyPartitions
