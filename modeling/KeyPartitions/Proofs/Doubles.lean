import KeyPartitions.Proofs.Rounding

/-!
# Doubles of counts and of their quotients

A double of a count is the count rounded to 53 bits, and a quotient of two doubles is their quotient
rounded in the same way. Both keep the order of what is rounded. Twice a count has the same
significand and the next exponent, and a quotient depends on the difference of the exponents only.
-/
namespace KeyPartitions.Decimal

open Float.Model (Format totalExponent)
open Float.Model.UnpackedFloat

theorem unpackSign_positive (exponent : BitVec 11) (significand : BitVec 52) :
    unpackSign (packComponents .binary64 .positive exponent significand) = 0#1 := by
  change (0#1 ++ exponent ++ significand).extractLsb' 63 1 = 0#1
  rw [BitVec.extractLsb'_append_eq_of_le (by decide),
    BitVec.extractLsb'_append_eq_of_le (by decide)]
  rfl

namespace Normal

def toFloat (number : Normal) : Float := .ofModel (.pack number.unpacked)

section Pack

variable (number : Normal) (least : -1074 ≤ number.exponent) (most : number.exponent ≤ 971)

include least most

theorem pack_unpacked :
    pack .binary64 number.unpacked =
      packComponents .binary64 .positive (BitVec.ofNat 11 (number.exponent + 1075).toNat)
        (BitVec.ofNat 52 number.significand) := by
  have biased : number.exponent + (Format.binary64.exponentBias : Nat) + (52 : Nat) =
      number.exponent + 1075 := by
    simp only [Format.exponentBias]
    omega
  unfold unpacked pack
  -- There are neither too many bits for a double nor too few for a normal one.
  rw [biased, number.log2_significand, if_neg, if_pos]
  · decide
  · simp only [Nat.reducePow]
    omega

theorem unpack_toFloat : number.toFloat.toModel.unpack = number.unpacked := by
  have lower := number.least
  have upper := number.below
  have implicit : (1#1 ++ BitVec.ofNat 52 number.significand).toNat = number.significand := by
    rw [BitVec.toNat_append, BitVec.toNat_ofNat, BitVec.toNat_ofNat,
      ← Nat.shiftLeft_add_eq_or_of_lt (Nat.mod_lt _ (Nat.two_pow_pos 52))]
    simp only [Nat.reducePow]
    omega
  change unpack .binary64 (pack .binary64 number.unpacked) = number.unpacked
  rw [pack_unpacked number least most]
  -- The exponent field is neither all ones nor zero, so the significand has its hidden bit.
  refine (if_neg ?finite).trans ((if_neg ?normal).trans ?number)
  case number =>
    rw [unpacked, finite.injEq, unpackSign_positive, unpackMantissa_packComponents,
      unpackExponent_packComponents]
    refine ⟨rfl, implicit, ?_⟩
    simp only [Format.exponentBias, BitVec.toNat_ofNat]
    omega
  all_goals
    rw [unpackExponent_packComponents, ← BitVec.toNat_inj]
    simp only [BitVec.toNat_ofNat, BitVec.toNat_neg]
    omega

end Pack

/-! ### Order -/

theorem lt_finite_iff {first second : Nat} {exponent other : Int} {positive : 0 < first}
    {inhabited : 0 < second} :
    (finite .positive first exponent positive).lt (finite .positive second other inhabited) =
      true ↔ exponent < other ∨ exponent = other ∧ first < second := by
  -- Of two positive numbers the machine compares the exponents first.
  change (some ((compare exponent other).then (compare first second)) == some .lt) = true ↔ _
  simp [Ordering.then_eq_lt, Int.compare_eq_lt, Nat.compare_eq_lt]

variable {limit : Float.Model.UnpackedFloat}

theorem lt_unpacked_of_le {less more : Normal} (order : less ≤ more)
    (exceeds : limit.lt less.unpacked = true) : limit.lt more.unpacked = true := by
  rw [le_def] at order
  -- Only a limit that is a positive number itself has to be compared.
  rcases limit with _ | _ | _ | ⟨_ | _, significand, exponent, positive⟩
  case finite.positive =>
    rw [unpacked, lt_finite_iff] at exceeds ⊢
    omega
  case infinity sign => cases sign <;> exact exceeds
  all_goals exact exceeds

theorem lt_unpacked_of_lt_zero (number : Normal) (exceeds : limit.lt (.zero .positive) = true) :
    limit.lt number.unpacked = true := by
  rcases limit with sign | _ | _ | ⟨_ | _, significand, exponent, positive⟩
  case infinity => cases sign <;> exact exceeds
  case zero => rfl
  case finite.positive => cases exceeds
  all_goals exact exceeds

/-! ### Whole numbers -/

section Whole

variable {few many whole : Nat}

theorem full_whole (positive : 0 < whole) : Full (whole * 2 ^ 52) (2 ^ whole.log2) := by
  have least := Nat.log2_self_le positive.ne'
  have below := Nat.lt_log2_self (n := whole)
  constructor
  · rw [Nat.mul_comm whole]
    exact Nat.mul_le_mul_left _ least
  · rw [Nat.pow_succ] at below
    omega

/-- A whole number rounded to 53 bits. -/
def ofWhole (whole : Nat) (positive : 0 < whole) : Normal :=
  nearest (full_whole positive) (whole.log2 - 52)

/-- The next exponent. -/
def doubled (number : Normal) : Normal := { number with exponent := number.exponent + 1 }

theorem doubled_nearest {numerator denominator : Nat} (full : Full numerator denominator)
    (exponent : Int) : (nearest full exponent).doubled = nearest full (exponent + 1) := by
  unfold nearest
  split <;> rfl

theorem ofWhole_double (positive : 0 < whole) (twice : 0 < 2 * whole) :
    ofWhole (2 * whole) twice = (ofWhole whole positive).doubled := by
  have places : (2 * whole).log2 = whole.log2 + 1 := Nat.log2_two_mul positive.ne'
  rw [ofWhole, ofWhole, doubled_nearest]
  refine nearest_congr _ _ (by omega) ?_
  rw [places, Nat.pow_succ]
  ring

theorem ofWhole_le_ofWhole (positive : 0 < few) (order : few ≤ many) :
    ofWhole few positive ≤ ofWhole many (positive.trans_le order) := by
  have places : few.log2 ≤ many.log2 :=
    (Nat.le_log2 (positive.trans_le order).ne').mpr ((Nat.log2_self_le positive.ne').trans order)
  apply nearest_le_nearest
  rcases Nat.lt_or_eq_of_le places with shorter | same
  · exact Or.inl (by omega)
  · right
    rw [same]
    exact ⟨rfl, Nat.mul_le_mul_right _ (Nat.mul_le_mul_right _ order)⟩

theorem exponent_ofWhole (positive : 0 < whole) (bits : Nat) (narrow : whole < 2 ^ bits) :
    -52 ≤ (ofWhole whole positive).exponent ∧ (ofWhole whole positive).exponent ≤ bits - 52 := by
  have places := (Nat.log2_lt positive.ne').mpr narrow
  unfold ofWhole nearest
  split <;> dsimp only <;> omega

/-- A whole number may be given with any exponent at which it has 53 bits or more. -/
theorem roundWithAccuracy_eq_ofWhole (positive : 0 < whole) {shift : Nat} {exponent : Int}
    (wide : 52 ≤ whole.log2 + shift) (value : exponent + shift = 0) :
    roundWithAccuracy .binary64 .positive (whole * 2 ^ shift) exponent .exact =
      (ofWhole whole positive).unpacked := by
  obtain ⟨places, sum⟩ := Nat.exists_eq_add_of_le wide
  have lower := Nat.log2_self_le positive.ne'
  have upper := Nat.lt_log2_self (n := whole)
  have full : Full (whole * 2 ^ shift) (2 ^ places) := by
    constructor
    · rw [← Nat.pow_add, ← sum, Nat.pow_add]
      exact Nat.mul_le_mul_right _ lower
    · have width : 53 + places = whole.log2 + 1 + shift := by omega
      rw [← Nat.pow_add, width, Nat.pow_add]
      exact Nat.mul_lt_mul_of_pos_right upper (Nat.two_pow_pos shift)
  rw [roundWithAccuracy_exact full exponent (by omega)]
  refine congrArg unpacked (nearest_congr _ _ (by omega) ?_)
  rw [Nat.mul_assoc, Nat.mul_assoc, ← Nat.pow_add, ← Nat.pow_add]
  congr 2
  omega

/-- A short number is shifted to 53 bits, and there is nothing to round. -/
theorem round_eq_ofWhole (positive : 0 < whole) (short : whole < 2 ^ 53) :
    Float.Model.UnpackedFloat.round .binary64 .positive whole 0 =
      (ofWhole whole positive).unpacked := by
  have places := (Nat.log2_lt positive.ne').mpr short
  have target : Format.binary64.targetExponent (totalExponent whole 0) = whole.log2 - 52 := by
    rw [targetExponent_eq_max, totalExponent]
    omega
  have shift : (0 - ((whole.log2 : Int) - 52)).toNat = 52 - whole.log2 := by omega
  rw [Float.Model.UnpackedFloat.round, target]
  simp only [decreaseExponent, shift, Nat.shiftLeft_eq]
  exact roundWithAccuracy_eq_ofWhole positive (by omega) (by omega)

theorem toFloat_toUInt64 (positive : 0 < whole) (short : whole < 2 ^ 53) :
    whole.toUInt64.toFloat = (ofWhole whole positive).toFloat := by
  have word : whole.toUInt64.toNat = whole := Nat.mod_eq_of_lt (short.trans (by decide))
  change Float.ofModel (.pack (Float.Model.UnpackedFloat.normalize .binary64 whole.toUInt64.toNat 0
    .positive)) = _
  rw [word, Float.Model.UnpackedFloat.normalize, Int.compare_eq_gt.mpr (by omega)]
  exact congrArg (fun number => Float.ofModel (.pack number)) (round_eq_ofWhole positive short)

theorem mul_one_unpacked (number : Normal) (least : -1022 ≤ number.exponent) :
    mul .binary64 number.unpacked (.finite .positive (2 ^ 52) (-52) (Nat.two_pow_pos 52)) =
      number.unpacked := by
  have full : Full (number.significand * 2 ^ 52) (2 ^ 52) :=
    ⟨Nat.mul_le_mul_right _ number.least,
      Nat.mul_lt_mul_of_pos_right number.below (Nat.two_pow_pos 52)⟩
  have same : { number with exponent := number.exponent + -52 + (52 : Nat) } = number :=
    Normal.ext rfl (Int.neg_add_cancel_right _ 52)
  change roundWithAccuracy .binary64 .positive (number.significand * 2 ^ 52)
    (number.exponent + -52) .exact = _
  rw [roundWithAccuracy_exact full _ (by omega), nearest_exact, same]

/-- A short number is converted as a word, and multiplied by one. -/
theorem ofNat_eq_of_short (positive : 0 < whole) (short : whole < 2 ^ 53) :
    Float.ofNat whole = (ofWhole whole positive).toFloat := by
  obtain ⟨least, most⟩ := exponent_ofWhole positive 53 short
  have product : Float.ofNat whole = whole.toUInt64.toFloat * Float.ofBits 0x3FF0000000000000 :=
    dif_pos ⟨short, Nat.zero_le 22⟩
  have one : (Float.ofBits 0x3FF0000000000000).toModel.unpack =
      .finite .positive (2 ^ 52) (-52) (Nat.two_pow_pos 52) := rfl
  rw [product, toFloat_toUInt64 positive short]
  change Float.ofModel (.pack (mul .binary64 (ofWhole whole positive).toFloat.toModel.unpack
    (Float.ofBits 0x3FF0000000000000).toModel.unpack)) = _
  rw [unpack_toFloat _ (by omega) (by omega), one, mul_one_unpacked _ (by omega)]
  rfl

/-- A long number is multiplied by the power of ten with exponent zero. -/
theorem ofScientific_eq_ofWhole (positive : 0 < whole) :
    Float.Model.UnpackedFloat.ofScientific .binary64 whole 0 =
      (ofWhole whole positive).unpacked := by
  have ten : whole <<< Format.binary64.mantissaBits * 10 ^ (0 : Int).toNat = whole * 2 ^ 53 := by
    rw [Int.toNat_zero, Nat.pow_zero, Nat.mul_one, Nat.shiftLeft_eq]
    rfl
  have range : (2 : Int) ^ Format.binary64.exponentBits = 2048 := rfl
  have small : ¬ (0 : Int) > 2 ^ Format.binary64.exponentBits := by omega
  have large : ¬ (0 : Int) < -(2 ^ Format.binary64.exponentBits + (whole.log2 : Int)) := by omega
  -- The exponent zero is neither too large nor too small, so its power of ten is a factor.
  refine (dif_neg positive.ne').trans ((if_neg small).trans ((if_neg large).trans
    ((if_pos (Int.le_refl 0)).trans ?_)))
  change roundWithAccuracy .binary64 .positive
    (whole <<< Format.binary64.mantissaBits * 10 ^ (0 : Int).toNat) (-53) .exact = _
  rw [ten]
  exact roundWithAccuracy_eq_ofWhole positive (by omega) rfl

/-- The double of a count is the count rounded to 53 bits. -/
theorem ofNat_eq (positive : 0 < whole) :
    Float.ofNat whole = (ofWhole whole positive).toFloat := by
  by_cases short : whole < 2 ^ 53
  · exact ofNat_eq_of_short positive short
  · have long : Float.ofNat whole =
        .ofModel (.pack (Float.Model.UnpackedFloat.ofScientific .binary64 whole 0)) :=
      dif_neg fun both => short both.1
    rw [long, ofScientific_eq_ofWhole positive]
    rfl

end Whole

/-! ### Quotients -/

section Quotient

variable (part whole : Normal)

/-- By how many places the quotient of the significands is wider than 53 bits. -/
def carry : Nat := if part.significand < whole.significand then 0 else 1

theorem full_quotient :
    Full (part.significand * 2 ^ 53) (whole.significand * 2 ^ part.carry whole) := by
  have partLeast := part.least
  have partBelow := part.below
  have wholeLeast := whole.least
  have wholeBelow := whole.below
  -- Neither significand is twice the other.
  unfold carry
  constructor <;> split <;> omega

/-- A quotient rounded to 53 bits. -/
def quotient : Normal :=
  nearest (full_quotient part whole) (part.exponent - whole.exponent - 53 + part.carry whole)

theorem quotient_doubled : part.doubled.quotient whole.doubled = part.quotient whole := by
  refine nearest_congr _ _ ?_ rfl
  have same : part.doubled.carry whole.doubled = part.carry whole := rfl
  rw [same]
  simp only [doubled]
  omega

theorem exponent_quotient :
    part.exponent - whole.exponent - 53 ≤ (part.quotient whole).exponent ∧
      (part.quotient whole).exponent ≤ part.exponent - whole.exponent - 51 := by
  have places : part.carry whole ≤ 1 := by unfold carry; split <;> omega
  unfold quotient nearest
  split <;> dsimp only <;> omega

variable {part whole} in
theorem quotient_le_quotient {more : Normal} (order : part ≤ more) :
    part.quotient whole ≤ more.quotient whole := by
  have partBelow := part.below
  have moreLeast := more.least
  rw [le_def] at order
  -- A place more is worth a factor of two, and less than that lies between two significands.
  have places : part.exponent + part.carry whole < more.exponent + more.carry whole ∨
      part.exponent + part.carry whole = more.exponent + more.carry whole ∧
        part.significand * 2 ^ more.carry whole ≤ more.significand * 2 ^ part.carry whole := by
    unfold carry
    split <;> split <;> omega
  apply nearest_le_nearest
  rcases places with before | ⟨same, significands⟩
  · exact Or.inl (by omega)
  · refine Or.inr ⟨by omega, ?_⟩
    calc part.significand * 2 ^ 53 * (whole.significand * 2 ^ more.carry whole)
        = part.significand * 2 ^ more.carry whole * (2 ^ 53 * whole.significand) := by ring
      _ ≤ more.significand * 2 ^ part.carry whole * (2 ^ 53 * whole.significand) :=
        Nat.mul_le_mul_right _ significands
      _ = more.significand * 2 ^ 53 * (whole.significand * 2 ^ part.carry whole) := by ring

theorem divCore_eq (least : -1021 ≤ part.exponent - whole.exponent) :
    divCore .binary64 part.significand part.exponent whole.significand whole.exponent =
      (part.significand * 2 ^ 53 / whole.significand, part.exponent - whole.exponent - 53,
        accuracyOfFraction (part.significand * 2 ^ 53 % whole.significand) whole.significand) := by
  have target : Format.binary64.targetExponent (totalExponent part.significand part.exponent -
      totalExponent whole.significand whole.exponent) = part.exponent - whole.exponent - 53 := by
    rw [targetExponent_eq_max, totalExponent, totalExponent, log2_significand, log2_significand]
    omega
  have lower : min (part.exponent - whole.exponent) (part.exponent - whole.exponent - 53) =
      part.exponent - whole.exponent - 53 := by omega
  have places : (part.exponent - whole.exponent - (part.exponent - whole.exponent - 53)).toNat =
      53 := by omega
  simp only [divCore, target, lower, places, Nat.shiftLeft_eq]

/-- The machine divides so. -/
theorem div_unpacked (least : -1021 ≤ part.exponent - whole.exponent) :
    div .binary64 part.unpacked whole.unpacked = (part.quotient whole).unpacked := by
  change (match divCore .binary64 part.significand part.exponent
      whole.significand whole.exponent with
    | (cut, exponent, accuracy) =>
      roundWithAccuracy .binary64 .positive cut exponent accuracy) = _
  rw [divCore_eq part whole least]
  exact roundWithAccuracy_eq (part.full_quotient whole) _ (by omega)

end Quotient

end Normal
end KeyPartitions.Decimal
