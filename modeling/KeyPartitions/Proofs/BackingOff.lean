import KeyPartitions.Proofs.CapacityLaw
import Mathlib.Data.List.Chain

/-!
# Backing off

A refused doubling leaves a mark: the table asks again only when it has twice as many entries, and
one more at least. Until a doubling is granted or the table is cleared nothing takes the mark back,
whatever is removed and put again in between. So the counts at which doublings are refused double
from one to the next, and the number of refusals is logarithmic in the largest count. A refusal
costs nothing but the doubling: the entry goes in, and the other chains stay as they are.
-/
namespace KeyPartitions

/-- An extension as the puts that it makes, and any other operation as it is. -/
def Operation.steps : Operation → List Operation
  | .extend entries => entries.map .put
  | operation => [operation]

/-- The operations that are one step and keep the mark of the last refusal. -/
def Operation.KeepsMark : Operation → Prop
  | .extend _ | .clear => False
  | _ => True

theorem Operation.keepsMark_of_mem_steps {operations : List Operation}
    (uncleared : .clear ∉ operations) :
    ∀ step ∈ operations.flatMap Operation.steps, step.KeepsMark := by
  intro step member
  obtain ⟨operation, stands, part⟩ := List.mem_flatMap.mp member
  cases operation with
  | extend entries =>
    obtain ⟨entry, -, rfl⟩ := List.mem_map.mp part
    trivial
  | clear => exact absurd stands uncleared
  | _ =>
    obtain rfl := List.mem_singleton.mp part
    trivial

namespace Table

variable {α : Type} [LoadScale α]

/-- A run goes through its steps. -/
theorem run_steps (memory : Memory) (table : Table α) (operations : List Operation) :
    table.run memory (operations.flatMap Operation.steps) = table.run memory operations := by
  induction operations generalizing table with
  | nil => rfl
  | cons operation rest ih =>
    rw [List.flatMap_cons, run_append, ih, run_cons]
    cases operation with
    | extend entries => exact congrArg (run memory · rest) (extend_eq_run table entries).symm
    | _ => rfl

/-- The counts at which the steps of a run are refused a doubling, in order. -/
def refusedAt (memory : Memory) (table : Table α) : List Operation → List Nat
  | [] => []
  | step :: rest =>
    let after := (table.perform memory step).2
    if after.failedResizes = table.failedResizes then refusedAt memory after rest
    else table.count :: refusedAt memory after rest

/-! ### One step -/

section Step

variable (memory : Memory) (table : Table α)

/-- A put meets no refusal, or it puts an absent key and leaves its mark. -/
theorem put_refusal_cases (entry : Entry) :
    (table.put memory entry).failedResizes = table.failedResizes ∨
    (table.find? entry.key = none ∧ table.needsGrowth = true ∧
      table.put memory entry = table.refused.prepend entry) := by
  rcases put_cases memory table entry with ⟨-, changed⟩ | ⟨absent, added⟩
  · rw [changed]
    exact Or.inl rfl
  · rw [added]
    rcases makeRoom_cases memory table with ⟨-, same⟩ | ⟨-, -, grown⟩ | ⟨needed, -, kept⟩
    · rw [same]; exact Or.inl rfl
    · rw [grown]; exact Or.inl rfl
    · rw [kept]; exact Or.inr ⟨absent, needed, rfl⟩

theorem resizes_le_put (entry : Entry) : table.resizes ≤ (table.put memory entry).resizes := by
  rcases put_growth_cases memory table entry with ⟨-, same⟩ | ⟨-, -, more⟩ <;> omega

theorem resizes_le_run (operations : List Operation) :
    table.resizes ≤ (table.run memory operations).resizes := by
  apply run_preserves (motive := fun after => table.resizes ≤ after.resizes)
  case put => exact fun after entry le => le.trans (after.resizes_le_put memory entry)
  case unlink => exact fun _ _ _ le => le
  case read => exact fun _ le => le
  case clear => exact fun _ le => le
  case holds => exact Nat.le_refl _

variable {memory table}

/-- A put that meets neither a grant nor a refusal keeps the mark. -/
theorem retryAt_put {entry : Entry}
    (ungrown : (table.put memory entry).resizes = table.resizes)
    (unrefused : (table.put memory entry).failedResizes = table.failedResizes) :
    (table.put memory entry).retryAt = table.retryAt := by
  rcases put_cases memory table entry with ⟨-, changed⟩ | ⟨-, added⟩
  · rw [changed]; rfl
  · rw [added] at ungrown unrefused ⊢
    rcases makeRoom_cases memory table with ⟨-, same⟩ | ⟨-, -, grown⟩ | ⟨-, -, kept⟩
    · rw [same]; rfl
    · rw [grown] at ungrown
      exact absurd ungrown (Nat.succ_ne_self _)
    · rw [kept] at unrefused
      exact absurd unrefused (Nat.succ_ne_self _)

/-- Without a grant a step keeps the mark, or it has reached the mark and sets it anew. -/
theorem perform_mark_cases {step : Operation} (keeps : step.KeepsMark)
    (ungrown : (table.perform memory step).2.resizes = table.resizes) :
    let after := (table.perform memory step).2
    (after.failedResizes = table.failedResizes ∧ after.retryAt = table.retryAt) ∨
    (after.failedResizes = table.failedResizes + 1 ∧ table.retryAt ≤ table.count ∧
      after.retryAt = max (2 * table.count) (table.count + 1) ∧
      after.count = table.count + 1) := by
  have looked (key : Key) : (table.get key).2.failedResizes = table.failedResizes ∧
      (table.get key).2.retryAt = table.retryAt := by
    rcases table.get_snd_cases key with same | counted
    · simp [same]
    · simp [counted, countRead]
  intro after
  cases step with
  | put entry =>
    rcases put_refusal_cases memory table entry with unrefused | ⟨-, needed, kept⟩
    · exact Or.inl ⟨unrefused, retryAt_put ungrown unrefused⟩
    · have reached : table.retryAt ≤ table.count := by
        simp only [needsGrowth, Bool.and_eq_true, decide_eq_true_eq] at needed
        exact needed.1
      have same : after = table.refused.prepend entry := kept
      rw [same]
      exact Or.inr ⟨rfl, reached, rfl, rfl⟩
  | remove key =>
    left
    change (table.remove key).2.failedResizes = _ ∧ (table.remove key).2.retryAt = _
    rcases table.remove_cases key with ⟨-, same⟩ | ⟨-, unlinked⟩
    · simp [same]
    · simp [unlinked, Table.unlinked]
  | get key => exact Or.inl (looked key)
  | getOrNotFound key => exact Or.inl (looked key)
  | contains key => exact Or.inl (looked key)
  | extend entries => exact keeps.elim
  | clear => exact keeps.elim

variable (table) in
omit [LoadScale α] in
/-- A new entry stands before those of its chain, and the other chains stay. -/
theorem chainAt_prepend (nonempty : 0 < table.capacity) (entry : Entry) (bucket : Nat) :
    (table.prepend entry).chainAt bucket =
      if bucket = table.index entry.key then entry :: table.chainAt bucket
      else table.chainAt bucket := by
  have changed := getD_modify table.buckets (entry :: ·)
    (bucketIndex_lt (table.hash entry.key) nonempty) bucket
  refine changed.trans ?_
  by_cases here : bucket = table.index entry.key
  · rw [if_pos here, here]
    exact if_pos rfl
  · rw [if_neg here]
    exact if_neg fun same => here same.symm

/-- A refused put takes its entry to the front of its chain and changes no other chain. -/
theorem put_of_refusal (wf : table.WellFormed) {entry : Entry}
    (refused : (table.put memory entry).failedResizes ≠ table.failedResizes) :
    let after := table.put memory entry
    table.find? entry.key = none ∧ after.find? entry.key = some entry.partition ∧
      after.count = table.count + 1 ∧ after.capacity = table.capacity ∧
      ∀ bucket, after.chainAt bucket =
        if bucket = table.index entry.key then entry :: table.chainAt bucket
        else table.chainAt bucket := by
  intro after
  obtain ⟨absent, -, kept⟩ := (put_refusal_cases memory table entry).resolve_left refused
  have same : after = table.refused.prepend entry := kept
  refine ⟨absent, by simp [after, wf.find?_put], ?_, ?_, fun bucket => ?_⟩
  · rw [same]; rfl
  · rw [same, capacity_prepend]; rfl
  · rw [same]
    exact table.refused.chainAt_prepend wf.nonempty entry bucket

theorem attempts_put_of_present {entry : Entry} (present : (table.find? entry.key).isSome) :
    (table.put memory entry).attempts = table.attempts := by
  rw [put_of_present present]
  rfl

omit [LoadScale α] in
theorem attempts_remove (key : Key) : (table.remove key).2.attempts = table.attempts := by
  rcases table.remove_cases key with ⟨-, same⟩ | ⟨-, unlinked⟩
  · rw [same]
  · rw [unlinked]; rfl

end Step

/-! ### A stretch without a grant -/

/-- What is known of the refusals of some steps that no doubling was granted to. -/
structure BacksOff (memory : Memory) (table : Table α) (steps : List Operation) : Prop where
  /-- The first refusal comes when the mark is reached. -/
  first : ∀ count ∈ (refusedAt memory table steps).head?, table.retryAt ≤ count
  doubles : (refusedAt memory table steps).IsChain fun earlier later =>
    2 * earlier ≤ later ∧ earlier + 1 ≤ later
  recorded : (table.run memory steps).failedResizes =
    table.failedResizes + (refusedAt memory table steps).length
  /-- The refused put brings in an entry all the same. -/
  below : ∀ count ∈ refusedAt memory table steps, count < peak memory table steps

theorem backsOff_of_ungrown {memory : Memory} {table : Table α} {steps : List Operation}
    (keeps : ∀ step ∈ steps, step.KeepsMark)
    (ungrown : (table.run memory steps).resizes = table.resizes) :
    BacksOff memory table steps := by
  induction steps generalizing table with
  | nil => exact ⟨by simp [refusedAt], by simp [refusedAt], rfl, by simp [refusedAt]⟩
  | cons step rest ih =>
    -- A grant would stay on record, so neither this step nor the later ones had one.
    let after := (table.perform memory step).2
    have now : table.resizes ≤ after.resizes := resizes_le_run memory table [step]
    have later : after.resizes ≤ table.resizes :=
      ungrown ▸ resizes_le_run memory after rest
    have same : after.resizes = table.resizes := Nat.le_antisymm later now
    have others : BacksOff memory after rest :=
      ih (fun other member => keeps other (List.mem_cons_of_mem step member))
        (ungrown.trans same.symm)
    have reached := count_le_peak memory after rest
    rcases perform_mark_cases (keeps step List.mem_cons_self) same with
      ⟨unrefused, mark⟩ | ⟨refused, ready, mark, count⟩
    · have counts : refusedAt memory table (step :: rest) = refusedAt memory after rest :=
        if_pos unrefused
      refine ⟨?_, ?_, ?_, ?_⟩ <;> rw [counts]
      · exact mark ▸ others.first
      · exact others.doubles
      · exact others.recorded.trans (by rw [unrefused])
      · exact fun count member => (others.below count member).trans_le (Nat.le_max_right _ _)
    · have counts : refusedAt memory table (step :: rest) =
          table.count :: refusedAt memory after rest := by
        refine if_neg ?_
        rw [refused]
        exact Nat.succ_ne_self _
      refine ⟨?_, ?_, ?_, ?_⟩ <;> rw [counts]
      · simpa using ready
      · -- The next refusal waits for the mark that this one sets.
        refine List.isChain_cons.mpr ⟨fun next member => ?_, others.doubles⟩
        have waits := others.first next member
        change (table.perform memory step).2.retryAt ≤ next at waits
        omega
      · refine others.recorded.trans ?_
        rw [refused, List.length_cons]
        omega
      · refine List.forall_mem_cons.mpr ⟨?_, fun count member => ?_⟩
        · have more : table.count < after.count := by
            rw [count]
            exact Nat.lt_succ_self _
          exact (more.trans_le reached).trans_le (Nat.le_max_right _ _)
        · exact (others.below count member).trans_le (Nat.le_max_right _ _)

namespace BacksOff

variable {memory : Memory} {table : Table α} {steps : List Operation}
  (backsOff : BacksOff memory table steps)

include backsOff

/-- From the second refusal on the counts are at least the powers of two. -/
theorem two_pow_le (position count : Nat)
    (refused : (refusedAt memory table steps)[position + 1]? = some count) :
    2 ^ position ≤ count := by
  induction position generalizing count with
  | zero =>
    obtain ⟨inside, rfl⟩ := List.getElem?_eq_some_iff.mp refused
    have step := List.isChain_iff_getElem.mp backsOff.doubles 0 inside
    rw [pow_zero]
    omega
  | succ position ih =>
    obtain ⟨inside, rfl⟩ := List.getElem?_eq_some_iff.mp refused
    have step := List.isChain_iff_getElem.mp backsOff.doubles (position + 1) inside
    have before := ih _ (List.getElem?_eq_getElem (by omega))
    rw [pow_succ]
    omega

theorem length_le : (refusedAt memory table steps).length ≤ 2 + (peak memory table steps).log2 := by
  rcases Nat.lt_or_ge 1 (refusedAt memory table steps).length with several | few
  · -- The last count is at least a power of two, and it is below the peak.
    let position := (refusedAt memory table steps).length - 2
    have inside : position + 1 < (refusedAt memory table steps).length := by omega
    have power := backsOff.two_pow_le position _ (List.getElem?_eq_getElem inside)
    have below := backsOff.below _ (List.getElem_mem inside)
    have logarithm : position ≤ (peak memory table steps).log2 :=
      (Nat.le_log2 (by omega)).mpr (by omega)
    omega
  · omega

end BacksOff

/-! ### The law -/

/-- In a stretch of operations that no doubling is granted to and that clears nothing, refusals come
at counts that double each time, so there are few of them. Each refused put takes its entry and
leaves the buckets and the other chains as they are, and only an absent key asks for more
buckets. -/
theorem refusals_back_off (memory : Memory) {start : Table α} (made : Made memory start)
    (history stretch : List Operation) (uncleared : .clear ∉ stretch)
    (ungrown : ((start.run memory history).run memory stretch).resizes =
      (start.run memory history).resizes) :
    let table := start.run memory history
    let steps := stretch.flatMap Operation.steps
    let counts := refusedAt memory table steps
    counts.IsChain (fun earlier later => 2 * earlier ≤ later ∧ earlier + 1 ≤ later) ∧
    (∀ position count, counts[position + 1]? = some count → 2 ^ position ≤ count) ∧
    (table.run memory stretch).failedResizes = table.failedResizes + counts.length ∧
    counts.length ≤ 2 + (peak memory table steps).log2 ∧
    ∀ done, done <+: steps →
      let now := table.run memory done
      (∀ entry, (now.put memory entry).failedResizes ≠ now.failedResizes →
        let after := now.put memory entry
        now.find? entry.key = none ∧ after.find? entry.key = some entry.partition ∧
          after.count = now.count + 1 ∧ after.capacity = now.capacity ∧
          ∀ bucket, after.chainAt bucket =
            if bucket = now.index entry.key then entry :: now.chainAt bucket
            else now.chainAt bucket) ∧
      (∀ entry, (now.find? entry.key).isSome →
        (now.put memory entry).attempts = now.attempts) ∧
      ∀ key, (now.remove key).2.attempts = now.attempts := by
  intro table steps counts
  have backsOff : BacksOff memory table steps := by
    apply backsOff_of_ungrown (Operation.keepsMark_of_mem_steps uncleared)
    rw [run_steps]
    exact ungrown
  have recorded := backsOff.recorded
  rw [run_steps] at recorded
  refine ⟨backsOff.doubles, backsOff.two_pow_le, recorded, backsOff.length_le, ?_⟩
  intro done _ now
  have wf : now.WellFormed := (made.wellFormed.run memory history).run memory done
  exact ⟨fun entry refused => put_of_refusal wf refused,
    fun entry present => attempts_put_of_present present, attempts_remove⟩

/-- Nothing is ever granted. Removals and new puts of the same keys in between do not bring the next
refusal nearer. -/
theorem refusals_back_off_of_full :
    let memory : Memory := ⟨fun _ => true, fun _ _ => false⟩
    let start := crowded (1 / 2)
    let stretch : List Operation :=
      [.put ⟨1, 10⟩, .extend [⟨2, 20⟩, ⟨1, 11⟩, ⟨3, 30⟩], .remove 3, .put ⟨3, 31⟩,
        .extend [⟨4, 40⟩, ⟨5, 50⟩], .get 4]
    let counts := refusedAt memory start (stretch.flatMap Operation.steps)
    Made memory start ∧ .clear ∉ stretch ∧ (start.run memory stretch).resizes = start.resizes ∧
      counts = [0, 1, 2, 4] ∧
      counts.IsChain (fun earlier later => 2 * earlier ≤ later ∧ earlier + 1 ≤ later) ∧
      counts.length ≤ 2 + (peak memory start (stretch.flatMap Operation.steps)).log2 ∧
      (start.run memory stretch).failedResizes = 4 := by
  intro memory start stretch counts
  have made : Made memory start := made_crowded rfl (by norm_num)
  have uncleared : .clear ∉ stretch := by decide
  have ungrown : (start.run memory stretch).resizes = start.resizes := by decide +kernel
  obtain ⟨doubles, -, -, few, -⟩ := refusals_back_off memory made [] stretch uncleared ungrown
  exact ⟨made, uncleared, ungrown, by decide +kernel, doubles, few, by decide +kernel⟩

end Table

end KeyPartitions
