import Zhiyi.Library.Python

set_option autoImplicit false

/-! Finite non-negative decimals as `decimal.Decimal` stores them: a
coefficient and an exponent, so one value has many representations.
Comparisons are those of the values, whatever the representation. -/
namespace Python

structure Decimal where
  coefficient : ℕ
  exponent : ℤ
  deriving DecidableEq, Repr

namespace Decimal

/-- `Decimal(0)`. -/
def zero : Decimal := ⟨0, 0⟩

def isZero (d : Decimal) : Bool := d.coefficient == 0

def value (d : Decimal) : ℚ := d.coefficient * (10 : ℚ) ^ d.exponent

/-- The coefficient of `d` written with the smaller exponent `e`. -/
def scaled (d : Decimal) (e : ℤ) : ℕ := d.coefficient * 10 ^ (d.exponent - e).toNat

theorem scaled_value (d : Decimal) (e : ℤ) (h : e ≤ d.exponent) :
    (d.scaled e : ℚ) * (10 : ℚ) ^ e = d.value := by
  have hexp : ((d.exponent - e).toNat : ℤ) = d.exponent - e := Int.toNat_of_nonneg (by omega)
  have hpow : (10 : ℚ) ^ (d.exponent - e).toNat = (10 : ℚ) ^ (d.exponent - e) := by
    rw [← zpow_natCast, hexp]
  unfold scaled value
  push_cast
  rw [hpow, mul_assoc, ← zpow_add₀ (by norm_num : (10 : ℚ) ≠ 0)]
  congr 2
  omega

def common (a b : Decimal) : ℤ := min a.exponent b.exponent

theorem scaled_left (a b : Decimal) : (a.scaled (common a b) : ℚ) * (10 : ℚ) ^ common a b = a.value :=
  scaled_value a _ (min_le_left _ _)

theorem scaled_right (a b : Decimal) : (b.scaled (common a b) : ℚ) * (10 : ℚ) ^ common a b = b.value :=
  scaled_value b _ (min_le_right _ _)

/-- `a > b`. -/
def gt (a b : Decimal) : Bool := decide (b.scaled (common a b) < a.scaled (common a b))

/-- `a == b`, which `Decimal("1.0")` and `Decimal("1.00")` satisfy. -/
instance : BEq Decimal where
  beq a b := a.scaled (common a b) == b.scaled (common a b)

theorem gt_iff (a b : Decimal) : a.gt b = true ↔ b.value < a.value := by
  have hp : (0 : ℚ) < (10 : ℚ) ^ common a b := by positivity
  rw [← scaled_left a b, ← scaled_right a b, mul_lt_mul_iff_left₀ hp]
  simp [gt]

theorem beq_iff (a b : Decimal) : (a == b) = true ↔ a.value = b.value := by
  have hp : (10 : ℚ) ^ common a b ≠ 0 := by positivity
  rw [← scaled_left a b, ← scaled_right a b, mul_left_inj' hp]
  change (a.scaled (common a b) == b.scaled (common a b)) = true ↔ _
  simp

theorem value_nonneg (d : Decimal) : 0 ≤ d.value := by
  unfold value
  positivity

@[simp] theorem zero_value : zero.value = 0 := by simp [zero, value]

theorem value_eq_zero (d : Decimal) : d.value = 0 ↔ d.coefficient = 0 := by
  have hp : (10 : ℚ) ^ d.exponent ≠ 0 := by positivity
  simp [value, hp]

def precision : ℕ := 28
def maxExponent : ℤ := 999999
def tinyExponent : ℤ := -1000026

def digitCount (n : ℕ) : ℕ := (Nat.toDigits 10 n).length

/-- `_fix`: the value with at most `precision` digits, `none` on overflow. -/
def fix (d : Decimal) : Option Decimal :=
  if d.coefficient = 0 then some ⟨0, min (max d.exponent tinyExponent) maxExponent⟩
  else
    let least := max (digitCount d.coefficient + d.exponent - precision) tinyExponent
    let rounded : Decimal :=
      if d.exponent < least then ⟨roundHalfEven d.coefficient (10 ^ (least - d.exponent).toNat), least⟩ else d
    let carried : Decimal :=
      if digitCount rounded.coefficient ≤ precision then rounded
      else ⟨rounded.coefficient / 10, rounded.exponent + 1⟩
    if carried.exponent + digitCount carried.coefficient - 1 ≤ maxExponent then some carried else none

/-- `a + b`, which raises `Overflow` beyond the largest exponent. -/
def contextAdd (a b : Decimal) : Option Decimal :=
  fix ⟨a.scaled (common a b) + b.scaled (common a b), common a b⟩

end Decimal
end Python
