import KeyPartitions.Basic
import KeyPartitions.Random.Shuffle

/-!
# Made-up records

The keys from one to a count in shuffled order, each with a partition drawn for it.
-/
namespace KeyPartitions.Records

open KeyPartitions.Random

variable {σ : Type} [WordSource σ]

/-- A count that no signed 64-bit key can reach gives no keys. -/
def firstKeys (count : Nat) : List Key :=
  if count ≤ Int64.maxValue.toInt then (List.range count).map fun n => Int64.ofNat (n + 1) else []

/-- One more entry, before those drawn so far. -/
def drawEntry (partitions : Nat) : List Entry × σ → Key → List Entry × σ
  | (entries, source), key =>
    let (partition, source) := below partitions source
    (⟨key, UInt32.ofNat partition⟩ :: entries, source)

/-- The records and the source behind them. There is nothing to draw from no partitions. -/
def generate? (count : Nat) (partitions : Partition) (source : σ) : Option (List Entry × σ) :=
  if partitions = 0 then none
  else
    let (keys, source) := shuffle (firstKeys count).toArray source
    let (entries, source) := keys.foldl (drawEntry partitions.toNat) ([], source)
    some (entries.reverse, source)

end KeyPartitions.Records
