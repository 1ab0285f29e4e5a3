/-!
# Measuring load

Load factors are quotients of counts, measured in some number type. `Float` is what a running table
uses; `Rat` measures exactly.
-/
namespace KeyPartitions

class LoadScale (α : Type) where
  ofCount : Nat → α
  quotient : α → α → α
  less : α → α → Bool
  isZero : α → Bool
  isFinite : α → Bool

instance : LoadScale Float where
  ofCount := Float.ofNat
  quotient a b := a / b
  less a b := a < b
  isZero a := a == 0
  isFinite := Float.isFinite

instance : LoadScale Rat where
  ofCount n := n
  quotient a b := a / b
  less a b := a < b
  isZero a := a == 0
  isFinite _ := true

namespace LoadScale

variable {α : Type} [LoadScale α]

/-- One count measured by another. -/
def ratio (part whole : Nat) : α := quotient (ofCount part) (ofCount whole)

/-- A limit on the load factor has to be finite and above zero. -/
def isLimit (limit : α) : Bool := isFinite limit && less (ofCount 0) limit

/-- Whether `entries` in `buckets` are over the limit. -/
def exceeded (limit : α) (entries buckets : Nat) : Bool := less limit (ratio entries buckets)

end LoadScale

end KeyPartitions
