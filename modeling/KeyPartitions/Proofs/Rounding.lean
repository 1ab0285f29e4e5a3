import KeyPartitions.Decimal.Magnitude
import Mathlib.Algebra.Order.Ring.Nat
import Mathlib.Tactic.Ring

/-!
# Rounded quotients

A double has 53 bits of a quotient. Division cuts the quotient off there and keeps two bits of what
is beyond, and by those it rounds: to the nearer neighbour, and from halfway to the even one. So the
result is the quotient rounded to a whole number, taken at the exponent at which it has 53 bits, and
rounding keeps the order of quotients. The main statement is `roundWithAccuracy_eq`.
-/
namespace KeyPartitions.Decimal

open Float.Model (Format totalExponent)
open Float.Model.UnpackedFloat

/-! ### Rounding to a whole number -/

theorem div_le_roundHalfEven (numerator denominator : Nat) :
    numerator / denominator ≤ roundHalfEven numerator denominator := by
  simp only [roundHalfEven]
  split <;> omega

theorem roundHalfEven_le (numerator denominator : Nat) :
    roundHalfEven numerator denominator ≤ numerator / denominator + 1 := by
  simp only [roundHalfEven]
  split <;> omega

section Order

variable {few many less more : Nat}

/-- Rounding keeps the order of quotients. -/
theorem roundHalfEven_mono (positive : 0 < more) (other : 0 < less)
    (order : few * less ≤ many * more) : roundHalfEven few more ≤ roundHalfEven many less := by
  have whole : few / more ≤ many / less := by
    rw [Nat.le_div_iff_mul_le other]
    refine Nat.le_of_mul_le_mul_right ?_ positive
    calc few / more * less * more = few / more * more * less := by ring
      _ ≤ few * less := Nat.mul_le_mul_right _ (Nat.div_mul_le_self few more)
      _ ≤ many * more := order
  rcases Nat.lt_or_eq_of_le whole with apart | same
  · calc roundHalfEven few more ≤ few / more + 1 := roundHalfEven_le few more
      _ ≤ many / less := apart
      _ ≤ roundHalfEven many less := div_le_roundHalfEven many less
  · -- With one whole part the remainders are in the order of the quotients.
    have rests : 2 * (few % more) * less ≤ 2 * (many % less) * more := by
      have equal : more * (many / less) * less = less * (many / less) * more := by ring
      rw [← Nat.div_add_mod few more, ← Nat.div_add_mod many less, same, Nat.add_mul, Nat.add_mul,
        equal] at order
      rw [Nat.mul_assoc, Nat.mul_assoc]
      exact Nat.mul_le_mul_left 2 (Nat.le_of_add_le_add_left order)
    -- So the greater quotient has a half beyond it wherever the lesser one has.
    have half (above : more ≤ 2 * (few % more)) : less ≤ 2 * (many % less) :=
      Nat.le_of_mul_le_mul_left ((Nat.mul_le_mul_right less above).trans
        (rests.trans_eq (Nat.mul_comm _ _))) positive
    have beyond (above : more < 2 * (few % more)) : less < 2 * (many % less) :=
      Nat.lt_of_mul_lt_mul_left ((Nat.mul_lt_mul_of_pos_right above other).trans_le
        (rests.trans_eq (Nat.mul_comm _ _)))
    simp only [roundHalfEven, same]
    split
    next raised =>
      have also : less < 2 * (many % less) ∨ less = 2 * (many % less) ∧ many / less % 2 = 1 := by
        rcases raised with above | ⟨equal, odd⟩
        · exact Or.inl (beyond above)
        · exact (Nat.lt_or_eq_of_le (half equal.le)).imp_right fun equal => ⟨equal, odd⟩
      rw [if_pos also]
    next => split <;> omega

theorem roundHalfEven_congr (positive : 0 < more) (other : 0 < less)
    (same : few * less = many * more) : roundHalfEven few more = roundHalfEven many less :=
  Nat.le_antisymm (roundHalfEven_mono positive other same.le)
    (roundHalfEven_mono other positive same.ge)

end Order

/-! ### The two bits after a significand -/

/-- A quotient cut off at the unit, with two bits that say how much is beyond. -/
def cutQuotient (numerator denominator : Nat) : ExtendedMantissa :=
  .ofMantissaAndAccuracy (numerator / denominator)
    (accuracyOfFraction (numerator % denominator) denominator)

section Cut

variable {numerator denominator : Nat}

/-- The first bit says whether there is a half beyond, and the second whether there is anything
besides. -/
theorem cutQuotient_eq (positive : 0 < denominator) :
    cutQuotient numerator denominator =
      ⟨numerator / denominator, denominator ≤ 2 * (numerator % denominator),
        numerator % denominator ≠ 0 ∧ denominator ≠ 2 * (numerator % denominator)⟩ := by
  unfold cutQuotient accuracyOfFraction
  by_cases none : numerator % denominator = 0
  · simp [none, ExtendedMantissa.ofMantissaAndAccuracy, Nat.pos_iff_ne_zero.mp positive]
  · rcases Nat.lt_trichotomy (2 * (numerator % denominator)) denominator with below | half | above
    · simp [none, Nat.compare_eq_lt.mpr below, ExtendedMantissa.ofMantissaAndAccuracy]
      omega
    · simp [none, Nat.compare_eq_eq.mpr half, ExtendedMantissa.ofMantissaAndAccuracy]
      omega
    · simp [none, Nat.compare_eq_gt.mpr above, ExtendedMantissa.ofMantissaAndAccuracy]
      omega

theorem mantissa_cutQuotient (positive : 0 < denominator) :
    (cutQuotient numerator denominator).mantissa = numerator / denominator := by
  rw [cutQuotient_eq positive]

/-- Rounding goes up where there is more than a half beyond, and from an odd significand where there
is just a half. -/
theorem roundedMantissa_eq (significand : Nat) (half beyond : Bool) :
    (⟨significand, half, beyond⟩ : ExtendedMantissa).roundedMantissa =
      if half = true ∧ (beyond = true ∨ significand % 2 = 1) then significand + 1
      else significand := by
  cases half <;> cases beyond <;>
    simp [ExtendedMantissa.roundedMantissa, ExtendedMantissa.accuracy, Accuracy.roundToNearestEven]
  split <;> omega

theorem roundedMantissa_cutQuotient (positive : 0 < denominator) :
    (cutQuotient numerator denominator).roundedMantissa =
      roundHalfEven numerator denominator := by
  rw [cutQuotient_eq positive, roundedMantissa_eq, roundHalfEven]
  simp only [decide_eq_true_eq]
  congr 1
  apply propext
  omega

theorem shiftRightOne_cutQuotient (positive : 0 < denominator) :
    (cutQuotient numerator denominator).shiftRightOne =
      cutQuotient numerator (denominator * 2) := by
  rw [cutQuotient_eq positive, cutQuotient_eq (by omega), ExtendedMantissa.shiftRightOne]
  have rest : numerator % (denominator * 2) =
      numerator % denominator + denominator * (numerator / denominator % 2) := Nat.mod_mul
  have below := Nat.mod_lt numerator positive
  rw [ExtendedMantissa.mk.injEq, rest]
  refine ⟨Nat.div_div_eq_div_mul _ _ _, Bool.eq_iff_iff.mpr ?half, Bool.eq_iff_iff.mpr ?beyond⟩
  -- The bit that is shifted out says whether there is a half beyond now, and both bits before it
  -- whether there is anything besides.
  all_goals
    simp only [bne_iff_ne, Bool.or_eq_true, decide_eq_true_eq]
    rcases Nat.mod_two_eq_zero_or_one (numerator / denominator) with even | odd
    · rw [even, Nat.mul_zero]
      omega
    · rw [odd, Nat.mul_one]
      omega

theorem shiftRight_cutQuotient (positive : 0 < denominator) (shift : Nat) :
    cutQuotient numerator denominator >>> shift =
      cutQuotient numerator (denominator * 2 ^ shift) := by
  -- A shift is made one place at a time.
  induction shift with
  | zero => rw [Nat.pow_zero, Nat.mul_one]; rfl
  | succ shift ih =>
    have one : cutQuotient numerator denominator >>> (shift + 1) =
        (cutQuotient numerator denominator >>> shift).shiftRightOne := rfl
    rw [one, ih, shiftRightOne_cutQuotient (Nat.mul_pos positive (Nat.two_pow_pos shift)),
      Nat.mul_assoc, Nat.pow_succ]

end Cut

/-! ### Numbers of 53 bits -/

/-- A quotient of which 53 bits stand before the point. -/
structure Full (numerator denominator : Nat) : Prop where
  least : 2 ^ 52 * denominator ≤ numerator
  below : numerator < 2 ^ 53 * denominator

namespace Full

variable {numerator denominator : Nat} (full : Full numerator denominator)

include full

theorem positive : 0 < denominator :=
  Nat.pos_of_ne_zero fun none => by have := full.below; simp [none] at this

theorem le_div : 2 ^ 52 ≤ numerator / denominator :=
  (Nat.le_div_iff_mul_le full.positive).mpr full.least

theorem div_lt : numerator / denominator < 2 ^ 53 :=
  (Nat.div_lt_iff_lt_mul full.positive).mpr full.below

theorem le_roundHalfEven : 2 ^ 52 ≤ roundHalfEven numerator denominator :=
  full.le_div.trans (div_le_roundHalfEven numerator denominator)

theorem roundHalfEven_le : roundHalfEven numerator denominator ≤ 2 ^ 53 :=
  (Decimal.roundHalfEven_le numerator denominator).trans full.div_lt

end Full

/-- The number `significand * 2 ^ exponent` with a significand of 53 bits. -/
@[ext]
structure Normal where
  significand : Nat
  exponent : Int
  least : 2 ^ 52 ≤ significand
  below : significand < 2 ^ 53

namespace Normal

theorem significand_pos (number : Normal) : 0 < number.significand :=
  (Nat.two_pow_pos 52).trans_le number.least

theorem log2_significand (number : Normal) : number.significand.log2 = 52 :=
  (Nat.log2_eq_iff number.significand_pos.ne').mpr ⟨number.least, number.below⟩

def unpacked (number : Normal) : Float.Model.UnpackedFloat :=
  .finite .positive number.significand number.exponent number.significand_pos

/-- The exponents decide, and the significands where those are equal. -/
instance : LE Normal where
  le less more := less.exponent < more.exponent ∨
    less.exponent = more.exponent ∧ less.significand ≤ more.significand

theorem le_def {less more : Normal} : less ≤ more ↔ less.exponent < more.exponent ∨
    less.exponent = more.exponent ∧ less.significand ≤ more.significand := Iff.rfl

/-- The number that a quotient is rounded to. Rounded up to 54 bits it takes the next exponent. -/
def nearest {numerator denominator : Nat} (full : Full numerator denominator) (exponent : Int) :
    Normal :=
  if within : roundHalfEven numerator denominator < 2 ^ 53 then
    ⟨roundHalfEven numerator denominator, exponent, full.le_roundHalfEven, within⟩
  else ⟨2 ^ 52, exponent + 1, Nat.le_refl _, by decide⟩

section Nearest

variable {few many less more : Nat} (lower : Full few more) (upper : Full many less)

/-- Rounding keeps the order of numbers. -/
theorem nearest_le_nearest {exponent other : Int}
    (order : exponent < other ∨ exponent = other ∧ few * less ≤ many * more) :
    nearest lower exponent ≤ nearest upper other := by
  have least := upper.le_roundHalfEven
  have most := lower.roundHalfEven_le
  rw [le_def]
  rcases order with before | ⟨rfl, products⟩
  · unfold nearest
    split <;> split <;> dsimp only <;> omega
  · have rounded := roundHalfEven_mono lower.positive upper.positive products
    unfold nearest
    split <;> split <;> simp only [true_and] <;> omega

theorem nearest_congr {exponent other : Int} (exponents : exponent = other)
    (products : few * less = many * more) : nearest lower exponent = nearest upper other := by
  simp only [nearest, exponents, roundHalfEven_congr lower.positive upper.positive products]

end Nearest

theorem nearest_exact (number : Normal) {denominator : Nat}
    (full : Full (number.significand * denominator) denominator) (exponent : Int) :
    nearest full exponent = { number with exponent } := by
  simp only [nearest, roundHalfEven_exact number.significand full.positive, number.below,
    dif_pos]

end Normal

/-! ### Rounding as the machine does -/

theorem targetExponent_eq_max (width : Int) :
    Format.binary64.targetExponent width = max (width - 53) (-1074) := rfl

/-- A significand of so many bits is moved to the exponent at which it has 53. -/
theorem targetExponent_eq {significand shift : Nat} (exponent : Int)
    (width : significand.log2 = 52 + shift) (least : -1074 ≤ exponent + shift) :
    Format.binary64.targetExponent (totalExponent significand exponent) = exponent + shift := by
  rw [targetExponent_eq_max, totalExponent, width]
  omega

section Round

variable {numerator denominator shift : Nat} (full : Full numerator (denominator * 2 ^ shift))
  (exponent : Int) (least : -1074 ≤ exponent + shift)

include full

theorem log2_div : (numerator / denominator).log2 = 52 + shift := by
  have positive : 0 < denominator := Nat.pos_of_mul_pos_right full.positive
  have bounds : 2 ^ (52 + shift) ≤ numerator / denominator ∧
      numerator / denominator < 2 ^ (52 + shift + 1) := by
    rw [Nat.le_div_iff_mul_le positive, Nat.div_lt_iff_lt_mul positive]
    constructor
    · calc 2 ^ (52 + shift) * denominator = 2 ^ 52 * (denominator * 2 ^ shift) := by ring
        _ ≤ numerator := full.least
    · calc numerator < 2 ^ 53 * (denominator * 2 ^ shift) := full.below
        _ = 2 ^ (52 + shift + 1) * denominator := by ring
  have some : numerator / denominator ≠ 0 :=
    (Nat.two_pow_pos (52 + shift)).trans_le bounds.1 |>.ne'
  exact (Nat.log2_eq_iff some).mpr bounds

include least

theorem shiftToTargetExponent_eq :
    shiftToTargetExponent .binary64 (numerator / denominator) exponent
        (accuracyOfFraction (numerator % denominator) denominator) =
      (cutQuotient numerator (denominator * 2 ^ shift), exponent + shift) := by
  have positive : 0 < denominator := Nat.pos_of_mul_pos_right full.positive
  have places : (exponent + shift - exponent).toNat = shift := by omega
  rw [shiftToTargetExponent, targetExponent_eq exponent (log2_div full) least, shiftToExponent,
    places, ← shiftRight_cutQuotient positive]
  rfl

end Round

theorem shiftToTargetExponent_exact {significand shift : Nat} (full : Full significand (2 ^ shift))
    (exponent : Int) (least : -1074 ≤ exponent + shift) :
    shiftToTargetExponent .binary64 significand exponent .exact =
      (cutQuotient significand (2 ^ shift), exponent + shift) := by
  have whole : Full significand (1 * 2 ^ shift) := by rwa [Nat.one_mul]
  have same := shiftToTargetExponent_eq whole exponent least
  rwa [Nat.div_one, Nat.mod_one, Nat.one_mul] at same

/-- Rounding moves the point, rounds to a whole number, and moves the point once more. -/
theorem roundWithAccuracy_of_shifts {significand whole : Nat} {exponent moved last : Int}
    {accuracy : Accuracy} {cut settled : ExtendedMantissa} {number : Normal}
    (first : shiftToTargetExponent .binary64 significand exponent accuracy = (cut, moved))
    (rounded : cut.roundedMantissa = whole)
    (second : shiftToTargetExponent .binary64 whole moved .exact = (settled, last))
    (reached : settled.mantissa = number.significand ∧ last = number.exponent) :
    roundWithAccuracy .binary64 .positive significand exponent accuracy = number.unpacked := by
  obtain ⟨same, rfl⟩ := reached
  have some : settled.mantissa ≠ 0 := same ▸ number.significand_pos.ne'
  rw [roundWithAccuracy, first]
  dsimp only
  rw [rounded, second]
  refine (dif_neg some).trans ?_
  rw [Normal.unpacked, finite.injEq]
  exact ⟨rfl, same, rfl⟩

/-- A quotient is rounded to the nearest number. -/
theorem roundWithAccuracy_eq {numerator denominator shift : Nat}
    (full : Full numerator (denominator * 2 ^ shift)) (exponent : Int)
    (least : -1074 ≤ exponent + shift) :
    roundWithAccuracy .binary64 .positive (numerator / denominator) exponent
        (accuracyOfFraction (numerator % denominator) denominator) =
      (Normal.nearest full (exponent + shift)).unpacked := by
  have lower := full.le_roundHalfEven
  have upper := full.roundHalfEven_le
  have first := shiftToTargetExponent_eq full exponent least
  have rounded : (cutQuotient numerator (denominator * 2 ^ shift)).roundedMantissa = _ :=
    roundedMantissa_cutQuotient full.positive
  unfold Normal.nearest
  split
  next within =>
    -- The rounded number has 53 bits already, so the point stays where it is.
    have again : Full (roundHalfEven numerator (denominator * 2 ^ shift)) (2 ^ 0) :=
      ⟨by omega, by omega⟩
    refine roundWithAccuracy_of_shifts first rounded
      (shiftToTargetExponent_exact again (exponent + shift) (by omega)) ⟨?_, Int.add_zero _⟩
    exact (mantissa_cutQuotient again.positive).trans (Nat.div_one _)
  next carried =>
    -- It can be no more than the first number of 54 bits, which moves by one place.
    have all : roundHalfEven numerator (denominator * 2 ^ shift) = 2 ^ 53 := by omega
    have again : Full (2 ^ 53) (2 ^ 1) := ⟨by decide, by decide⟩
    refine roundWithAccuracy_of_shifts first (rounded.trans all)
      (shiftToTargetExponent_exact again (exponent + shift) (by omega)) ⟨?_, rfl⟩
    exact (mantissa_cutQuotient again.positive).trans (Nat.pow_div (by decide) Nat.two_pos)

theorem roundWithAccuracy_exact {significand shift : Nat} (full : Full significand (2 ^ shift))
    (exponent : Int) (least : -1074 ≤ exponent + shift) :
    roundWithAccuracy .binary64 .positive significand exponent .exact =
      (Normal.nearest full (exponent + shift)).unpacked := by
  have whole : Full significand (1 * 2 ^ shift) := by rwa [Nat.one_mul]
  have same := roundWithAccuracy_eq whole exponent least
  rw [Nat.div_one, Nat.mod_one] at same
  exact same.trans (congrArg Normal.unpacked (Normal.nearest_congr _ _ rfl (by rw [Nat.one_mul])))

end KeyPartitions.Decimal
