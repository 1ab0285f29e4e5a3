import KeyPartitions.LoadScale
import KeyPartitions.Proofs.Doubles
import Mathlib.Algebra.Order.Field.Rat

/-!
# Order of measured loads

What a table needs of the way it measures load: more entries in the same buckets are no less load,
and twice the entries in twice the buckets are the same load. Exact quotients have both. Rounded
quotients have them too, as long as neither number is too long for a double.
-/
namespace KeyPartitions.LoadScale

section Within

variable {α : Type} [LoadScale α]

/-- A load that does not exceed the limit. -/
def Within (limit load : α) : Prop := less limit load = false

instance (limit load : α) : Decidable (Within limit load) :=
  inferInstanceAs (Decidable (less limit load = false))

theorem exceeded_eq_false_iff {limit : α} {entries buckets : Nat} :
    exceeded limit entries buckets = false ↔ Within limit (ratio entries buckets) := Iff.rfl

end Within

/-- A scale on which load grows with the entries, and is the same for twice the entries in twice the
buckets. That is asked only of the counts that the scale can measure. -/
class Ordered (α : Type) [LoadScale α] where
  Measures : Nat → Prop
  measures_of_le {few many : Nat} : few ≤ many → Measures many → Measures few
  within_of_le {limit : α} {few many whole : Nat} : few ≤ many → 0 < whole → Measures many →
    Measures whole → Within limit (ratio many whole) → Within limit (ratio few whole)
  ratio_double {part whole : Nat} : 0 < whole → Measures (2 * part) → Measures (2 * whole) →
    (ratio (2 * part) (2 * whole) : α) = ratio part whole

theorem ratio_mul_two_pow {α : Type} [LoadScale α] [Ordered α] {part whole : Nat}
    (positive : 0 < whole) (doublings : Nat) (parts : Ordered.Measures α (part * 2 ^ doublings))
    (wholes : Ordered.Measures α (whole * 2 ^ doublings)) :
    (ratio (part * 2 ^ doublings) (whole * 2 ^ doublings) : α) = ratio part whole := by
  induction doublings with
  | zero => rw [Nat.pow_zero, Nat.mul_one, Nat.mul_one]
  | succ doublings ih =>
    have twice (count : Nat) : count * 2 ^ (doublings + 1) = 2 * (count * 2 ^ doublings) := by ring
    rw [twice] at parts wholes ⊢
    rw [twice, Ordered.ratio_double (Nat.mul_pos positive (Nat.two_pow_pos _)) parts wholes]
    exact ih (Ordered.measures_of_le (Nat.le_mul_of_pos_left _ Nat.two_pos) parts)
      (Ordered.measures_of_le (Nat.le_mul_of_pos_left _ Nat.two_pos) wholes)

/-! ### Exact measures -/

theorem within_iff_le {limit load : Rat} : Within limit load ↔ load ≤ limit := by
  simp [Within, less]

theorem ratio_eq_div (part whole : Nat) : (ratio part whole : Rat) = part / whole := rfl

instance : Ordered Rat where
  Measures _ := True
  measures_of_le _ _ := trivial
  within_of_le {limit few many whole} order positive _ _ within := by
    rw [within_iff_le, ratio_eq_div] at within ⊢
    refine le_trans ?_ within
    exact div_le_div_of_nonneg_right (by exact_mod_cast order) (Nat.cast_nonneg whole)
  ratio_double {part whole} _ _ _ := by
    rw [ratio_eq_div, ratio_eq_div]
    push_cast
    exact mul_div_mul_left _ _ two_ne_zero

/-! ### Rounded measures -/

open Decimal (Normal)

section Rounded

variable {part whole : Nat} (positive : 0 < whole) (narrow : whole < 2 ^ 128)

include narrow

theorem unpack_ofNat :
    (Float.ofNat whole).toModel.unpack = (Normal.ofWhole whole positive).unpacked := by
  obtain ⟨least, most⟩ := Normal.exponent_ofWhole positive 128 narrow
  rw [Normal.ofNat_eq positive, Normal.unpack_toFloat _ (by omega) (by omega)]

/-- A ratio is the rounded quotient of the rounded counts. -/
theorem ratio_eq_quotient (inhabited : 0 < part) (few : part < 2 ^ 128) :
    (ratio part whole : Float) =
      ((Normal.ofWhole part inhabited).quotient (Normal.ofWhole whole positive)).toFloat := by
  obtain ⟨least, -⟩ := Normal.exponent_ofWhole inhabited 128 few
  obtain ⟨-, most⟩ := Normal.exponent_ofWhole positive 128 narrow
  have divided := Normal.div_unpacked (Normal.ofWhole part inhabited)
    (Normal.ofWhole whole positive) (by omega)
  change Float.ofModel (.pack (Float.Model.UnpackedFloat.div .binary64
    (Float.ofNat part).toModel.unpack (Float.ofNat whole).toModel.unpack)) = _
  rw [unpack_ofNat inhabited few, unpack_ofNat positive narrow, divided]
  rfl

theorem unpack_ratio (inhabited : 0 < part) (few : part < 2 ^ 128) :
    (ratio part whole : Float).toModel.unpack =
      ((Normal.ofWhole part inhabited).quotient (Normal.ofWhole whole positive)).unpacked := by
  have parts := Normal.exponent_ofWhole inhabited 128 few
  have wholes := Normal.exponent_ofWhole positive 128 narrow
  have exponents :=
    (Normal.ofWhole part inhabited).exponent_quotient (Normal.ofWhole whole positive)
  rw [ratio_eq_quotient positive narrow inhabited few,
    Normal.unpack_toFloat _ (by omega) (by omega)]

include positive in
theorem ratio_zero : (ratio 0 whole : Float) = .ofModel (.pack (.zero .positive)) := by
  have none : (Float.ofNat 0).toModel.unpack = .zero .positive := rfl
  change Float.ofModel (.pack (Float.Model.UnpackedFloat.div .binary64
    (Float.ofNat 0).toModel.unpack (Float.ofNat whole).toModel.unpack)) = _
  rw [none, unpack_ofNat positive narrow]
  rfl

include positive in
theorem unpack_ratio_zero : (ratio 0 whole : Float).toModel.unpack = .zero .positive := by
  rw [ratio_zero positive narrow]
  rfl

end Rounded

theorem not_within_iff_lt {limit load : Float} :
    ¬ Within limit load ↔ limit.toModel.unpack.lt load.toModel.unpack = true := by
  simp only [Within, Bool.not_eq_false, less, decide_eq_true_eq]
  exact decide_eq_true_iff

/-- Counts of 128 bits neither overflow nor bring a quotient below the normal numbers. -/
instance : Ordered Float where
  Measures count := count < 2 ^ 128
  measures_of_le order many := order.trans_lt many
  within_of_le {limit few many whole} order positive top narrow within := by
    -- A limit is exceeded by whatever is no less than a load that exceeds it.
    contrapose! within
    rw [not_within_iff_lt] at within ⊢
    rcases Nat.eq_zero_or_pos few with rfl | inhabited
    · rw [unpack_ratio_zero positive narrow] at within
      rcases Nat.eq_zero_or_pos many with rfl | others
      · rwa [unpack_ratio_zero positive narrow]
      · rw [unpack_ratio positive narrow others top]
        exact Normal.lt_unpacked_of_lt_zero _ within
    · have others := inhabited.trans_le order
      rw [unpack_ratio positive narrow inhabited (order.trans_lt top)] at within
      rw [unpack_ratio positive narrow others top]
      exact Normal.lt_unpacked_of_le
        (Normal.quotient_le_quotient (Normal.ofWhole_le_ofWhole inhabited order)) within
  ratio_double {part whole} positive parts wholes := by
    have wide : 0 < 2 * whole := by omega
    rcases Nat.eq_zero_or_pos part with rfl | inhabited
    · rw [Nat.mul_zero, ratio_zero wide wholes, ratio_zero positive (by omega)]
    · have more : 0 < 2 * part := by omega
      rw [ratio_eq_quotient wide wholes more parts,
        ratio_eq_quotient positive (by omega) inhabited (by omega),
        Normal.ofWhole_double inhabited more, Normal.ofWhole_double positive wide,
        Normal.quotient_doubled]

theorem measures_of_word {capacity : Nat} (word : capacity ≤ UInt64.size) :
    Ordered.Measures Float (2 * max capacity UInt64.size) := by
  have size : UInt64.size = 2 ^ 64 := rfl
  change 2 * max capacity UInt64.size < 2 ^ 128
  omega

/-- A limit just below a third admits one entry in three buckets where quotients are rounded, and
not where they are exact. -/
example :
    Decimal.readBits 0x3fd5555555555555 = .finite false ⟨6004799503160661, -54⟩ ∧
      Within (Float.ofBits 0x3fd5555555555555) (ratio 1 3) ∧
      ¬ Within (6004799503160661 / 2 ^ 54 : Rat) (ratio 1 3) := by
  decide +kernel

end KeyPartitions.LoadScale
