import KeyPartitions.Fault
import KeyPartitions.Hash
import KeyPartitions.LoadScale

/-!
# Settings of a table

The number of buckets it starts with, the load factor it grows at, and its hash function.
-/
namespace KeyPartitions

structure Settings (α : Type) where
  capacity : Nat
  loadLimit : α
  hashFunction : HashFunction
  deriving BEq

namespace Settings

variable {α : Type} [LoadScale α]

def standard : Settings α := ⟨16, LoadScale.ratio 3 4, .mix64⟩

/-- The settings of a table that takes a whole data file at once. -/
def bulk : Settings α := { standard with capacity := 20480 }

def withCapacity (settings : Settings α) (capacity : Nat) : Except Fault (Settings α) :=
  if capacity = 0 then .error .zeroCapacity else .ok { settings with capacity }

def withLoadLimit (settings : Settings α) (loadLimit : α) : Except Fault (Settings α) :=
  if LoadScale.isLimit loadLimit then .ok { settings with loadLimit } else .error .badLoadLimit

def withHashFunction (settings : Settings α) (hashFunction : HashFunction) : Settings α :=
  { settings with hashFunction }

/-- The first fault of the settings, the capacity before the load limit. -/
def check (settings : Settings α) : Except Fault Unit :=
  if settings.capacity = 0 then .error .zeroCapacity
  else if LoadScale.isLimit settings.loadLimit then .ok ()
  else .error .badLoadLimit

/-- Settings that a table can be made with. -/
def Valid (settings : Settings α) : Prop :=
  0 < settings.capacity ∧ LoadScale.isLimit settings.loadLimit = true

theorem check_eq_ok_iff (settings : Settings α) : settings.check = .ok () ↔ settings.Valid := by
  unfold check Valid
  by_cases zero : settings.capacity = 0
  · simp [zero]
  · have positive : 0 < settings.capacity := Nat.pos_of_ne_zero zero
    cases LoadScale.isLimit settings.loadLimit <;> simp [zero, positive]

end Settings

end KeyPartitions
