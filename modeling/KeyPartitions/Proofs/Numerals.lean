import KeyPartitions.Text.Numeral
import Mathlib.Algebra.Order.Group.Int

/-!
# Numerals and their values

A numeral is an optional sign before one or more ASCII digits, and the digits denote a number by
their positions. This grammar knows nothing of the order of reading nor of ranges. Reading gives a
value exactly where the grammar does and the value is in range, although it checks the range after
every digit: a value that has left its range never comes back. Writing gives a numeral of its value.
-/
namespace KeyPartitions.Text

/-- One or more ASCII digits, and the number that they denote. -/
structure Digits (text : List Char) (value : Nat) : Prop where
  nonempty : text ≠ []
  digits : ∀ c ∈ text, c.isDigit = true
  value : Nat.ofDigitChars 10 text 0 = value

inductive Unsigned : List Char → Nat → Prop
  | plain {text : List Char} {value : Nat} : Digits text value → Unsigned text value
  | plus {text : List Char} {value : Nat} : Digits text value → Unsigned ('+' :: text) value

inductive Signed : List Char → Int → Prop
  | unsigned {text : List Char} {value : Nat} : Unsigned text value → Signed text value
  | minus {text : List Char} {value : Nat} : Digits text value → Signed ('-' :: text) (-value)

/-- A sign is no digit. -/
theorem not_digits_cons {sign : Char} (noDigit : sign.isDigit = false) {text : List Char}
    {value : Nat} : ¬ Digits (sign :: text) value := by
  intro numeral
  have digit := numeral.digits sign List.mem_cons_self
  rw [noDigit] at digit
  cases digit

@[simp] theorem not_digits_nil {value : Nat} : ¬ Digits [] value :=
  fun numeral => numeral.nonempty rfl

@[simp] theorem not_unsigned_nil {value : Nat} : ¬ Unsigned [] value := by
  rintro (numeral | _)
  exact not_digits_nil numeral

@[simp] theorem not_unsigned_minus {text : List Char} {value : Nat} :
    ¬ Unsigned ('-' :: text) value := by
  rintro (numeral | _)
  exact not_digits_cons rfl numeral

@[simp] theorem unsigned_plus_iff {text : List Char} {value : Nat} :
    Unsigned ('+' :: text) value ↔ Digits text value := by
  constructor
  · rintro (numeral | numeral)
    · exact absurd numeral (not_digits_cons rfl)
    · exact numeral
  · exact .plus

theorem unsigned_iff_digits {text : List Char} {value : Nat} (plain : ∀ rest, text ≠ '+' :: rest) :
    Unsigned text value ↔ Digits text value := by
  constructor
  · rintro (numeral | _)
    · exact numeral
    · exact absurd rfl (plain _)
  · exact .plain

/-! ### Reading -/

theorem isDigit_iff (c : Char) : ('0' ≤ c ∧ c ≤ '9') ↔ c.isDigit = true := by
  simp [Char.isDigit, Char.le_def, UInt32.le_iff_toNat_le]

theorem digitValue?_of_isDigit {c : Char} (digit : c.isDigit = true) :
    digitValue? c = some (c.toNat - '0'.toNat) :=
  if_pos ((isDigit_iff c).mpr digit)

theorem digitValue?_eq_none {c : Char} (noDigit : ¬ c.isDigit = true) : digitValue? c = none :=
  if_neg (mt (isDigit_iff c).mp noDigit)

/-- More digits never make a number smaller. -/
theorem le_ofDigitChars (text : List Char) (value : Nat) :
    value ≤ Nat.ofDigitChars 10 text value := by
  rw [Nat.ofDigitChars_eq_ofDigitChars_zero]
  have factor : 1 ≤ 10 ^ text.length := Nat.one_le_pow _ _ (by decide)
  have grown := Nat.mul_le_mul_right value factor
  omega

theorem readUpward_eq_ok_iff {bound result : Int} {value : Nat} (within : value ≤ bound)
    (text : List Char) :
    readUpward bound value text = .ok result ↔
      (∀ c ∈ text, c.isDigit = true) ∧ Nat.ofDigitChars 10 text value = result ∧
        result ≤ bound := by
  induction text generalizing value with
  | nil =>
    simp only [readUpward, Except.ok.injEq, List.not_mem_nil, false_implies, implies_true, true_and,
      Nat.ofDigitChars_nil]
    constructor
    · rintro rfl
      exact ⟨rfl, within⟩
    · exact And.left
  | cons c rest ih =>
    rw [readUpward, List.forall_mem_cons, Nat.ofDigitChars_cons]
    by_cases digit : c.isDigit = true
    · have next : (value : Int) * 10 + (c.toNat - '0'.toNat : Nat) =
          (10 * value + (c.toNat - '0'.toNat) : Nat) := by omega
      simp only [digitValue?_of_isDigit digit, digit, true_and, next]
      split
      next inside => exact ih inside
      next outside =>
        -- The digits to come cannot bring the value back into its range.
        have grown := le_ofDigitChars rest (10 * value + (c.toNat - '0'.toNat))
        simp only [reduceCtorEq, false_iff]
        rintro ⟨-, rfl, small⟩
        omega
    · simp [digitValue?_eq_none digit, digit]

/-- Below zero the digits are read as above it, with the opposite bound. -/
theorem readDownward_eq_ok_iff {bound value result : Int} (text : List Char) :
    readDownward bound value text = .ok result ↔
      readUpward (-bound) (-value) text = .ok (-result) := by
  induction text generalizing value with
  | nil => simp [readDownward, readUpward]
  | cons c rest ih =>
    rw [readDownward, readUpward]
    cases digitValue? c with
    | none => simp
    | some digit =>
      have next : -value * 10 + digit = -(value * 10 - digit) := by omega
      simp only [next, Int.neg_le_neg_iff]
      split
      · exact ih
      · simp

theorem readUpward_zero_eq_ok_iff {bound result : Int} (nonneg : 0 ≤ bound) {text : List Char}
    (nonempty : text ≠ []) :
    readUpward bound 0 text = .ok result ↔
      ∃ size : Nat, Digits text size ∧ result = size ∧ result ≤ bound := by
  rw [← Int.natCast_zero, readUpward_eq_ok_iff nonneg]
  constructor
  · rintro ⟨digits, value, inside⟩
    exact ⟨_, ⟨nonempty, digits, rfl⟩, value.symm, inside⟩
  · rintro ⟨size, numeral, value, inside⟩
    exact ⟨numeral.digits, by rw [numeral.value, value], inside⟩

theorem readDownward_zero_eq_ok_iff {bound result : Int} (nonpos : bound ≤ 0) {text : List Char}
    (nonempty : text ≠ []) :
    readDownward bound 0 text = .ok result ↔
      ∃ size : Nat, Digits text size ∧ result = -size ∧ bound ≤ result := by
  rw [readDownward_eq_ok_iff, Int.neg_zero, readUpward_zero_eq_ok_iff (by omega) nonempty]
  constructor
  · rintro ⟨size, numeral, value, inside⟩
    exact ⟨size, numeral, by omega, by omega⟩
  · rintro ⟨size, numeral, value, inside⟩
    exact ⟨size, numeral, by omega, by omega⟩

/-- A numeral in range, or one with a minus sign where the range has numbers below zero. -/
theorem readNumeral_eq_ok_iff {low high result : Int} (nonpos : low ≤ 0) (nonneg : 0 ≤ high)
    (text : List Char) :
    readNumeral low high text = .ok result ↔
      (∃ size : Nat, Unsigned text size ∧ result = size ∧ result ≤ high) ∨
      (low < 0 ∧ ∃ rest, ∃ size : Nat, text = '-' :: rest ∧ Digits rest size ∧ result = -size ∧
        low ≤ result) := by
  unfold readNumeral
  -- No text at all and each sign alone are numerals to neither side.
  split
  next => simp
  next => simp
  next => simp
  next digits nonempty =>
    rw [readUpward_zero_eq_ok_iff nonneg nonempty]
    simp
  next digits nonempty =>
    by_cases below : low < 0
    · rw [if_pos below, readDownward_zero_eq_ok_iff nonpos nonempty]
      simp [below]
    · simp [below]
  next nonempty _ _ plain positive =>
    rw [readUpward_zero_eq_ok_iff nonneg nonempty]
    simp only [unsigned_iff_digits plain]
    constructor
    · exact Or.inl
    · -- The text in this case does not start with a minus sign.
      rintro (numeral | ⟨-, rest, -, sign, -⟩)
      · exact numeral
      · exact absurd sign (positive rest)

theorem readNumeral_zero_eq_ok_iff {high result : Int} (nonneg : 0 ≤ high) (text : List Char) :
    readNumeral 0 high text = .ok result ↔
      ∃ size : Nat, Unsigned text size ∧ result = size ∧ result ≤ high := by
  rw [readNumeral_eq_ok_iff (Int.le_refl 0) nonneg]
  simp

theorem readNumeral_signed_eq_ok_iff {low high result : Int} (below : low < 0) (nonneg : 0 ≤ high)
    (text : List Char) :
    readNumeral low high text = .ok result ↔ Signed text result ∧ low ≤ result ∧ result ≤ high := by
  rw [readNumeral_eq_ok_iff (Int.le_of_lt below) nonneg]
  constructor
  · rintro (⟨size, numeral, rfl, inside⟩ | ⟨-, rest, size, rfl, numeral, rfl, inside⟩)
    · exact ⟨.unsigned numeral, by omega, inside⟩
    · exact ⟨.minus numeral, inside, by omega⟩
  · rintro ⟨numeral | numeral, above, inside⟩
    · exact Or.inl ⟨_, numeral, rfl, inside⟩
    · exact Or.inr ⟨below, _, _, rfl, numeral, rfl, above⟩

/-! ### Writing -/

theorem digits_toDigits (value : Nat) : Digits (Nat.toDigits 10 value) value where
  nonempty := Nat.toDigits_ne_nil
  digits _ member := Nat.isDigit_of_mem_toDigits (by decide) (by decide) member
  value := Nat.ofDigitChars_ten_toDigits

theorem writeNumeral_natCast (value : Nat) : writeNumeral value = Nat.toDigits 10 value := by
  have nonneg : ¬ (value : Int) < 0 := by omega
  rw [writeNumeral, if_neg nonneg, Int.natAbs_natCast]

theorem unsigned_writeNumeral (value : Nat) : Unsigned (writeNumeral value) value := by
  rw [writeNumeral_natCast]
  exact .plain (digits_toDigits value)

theorem signed_writeNumeral (value : Int) : Signed (writeNumeral value) value := by
  cases value with
  | ofNat size => exact .unsigned (unsigned_writeNumeral size)
  | negSucc size =>
    have written : writeNumeral (Int.negSucc size) = '-' :: Nat.toDigits 10 (size + 1) :=
      if_pos (Int.negSucc_lt_zero size)
    rw [written]
    exact .minus (digits_toDigits (size + 1))

end KeyPartitions.Text
