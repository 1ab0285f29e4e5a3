/-!
# Keys, partitions and entries

A key is a signed 64-bit number and a partition an unsigned 32-bit one. An entry assigns a
partition to a key.
-/
namespace KeyPartitions

abbrev Key := Int64

abbrev Partition := UInt32

/-- What a sentinel lookup answers for an absent key. It is also a partition, so an entry that holds
it cannot be told from a missing one. -/
def notFound : Partition := 4294967295

structure Entry where
  key : Key
  partition : Partition
  deriving DecidableEq, Repr, Inhabited

end KeyPartitions
