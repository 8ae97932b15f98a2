import Zhiyi.Library.Decimal

set_option autoImplicit false

/-! When an addition under the default context is exact: the sums of at most 28
digits. -/
namespace Python
namespace Decimal

theorem digitCount_le_iff {n k : ℕ} (hk : 0 < k) : digitCount n ≤ k ↔ n < 10 ^ k :=
  Nat.length_toDigits_le_iff (by norm_num) hk

theorem digitCount_pos (n : ℕ) : 0 < digitCount n := Nat.length_toDigits_pos

theorem lt_pow_digitCount (n : ℕ) : n < 10 ^ digitCount n :=
  (digitCount_le_iff (digitCount_pos n)).mp le_rfl

theorem pow_le_of_digitCount {n : ℕ} (hn : n ≠ 0) : 10 ^ (digitCount n - 1) ≤ n := by
  by_cases hone : digitCount n = 1
  · rw [hone]
    simpa using Nat.one_le_iff_ne_zero.mpr hn
  · have hpos := digitCount_pos n
    by_contra hlt
    have := (digitCount_le_iff (show 0 < digitCount n - 1 by omega)).mpr (not_le.mp hlt)
    omega

theorem digitCount_eq {n k : ℕ} (hlow : 10 ^ k ≤ n) (hhigh : n < 10 ^ (k + 1)) :
    digitCount n = k + 1 := by
  have hle := (digitCount_le_iff (Nat.succ_pos k)).mpr hhigh
  have hne : n ≠ 0 := by
    have := Nat.pow_pos (show 0 < 10 by norm_num) (n := k)
    omega
  have hlt : 10 ^ k < 10 ^ digitCount n := lt_of_le_of_lt hlow (lt_pow_digitCount n)
  have := (Nat.pow_lt_pow_iff_right (by norm_num)).mp hlt
  omega

theorem digitCount_mul_pow {n : ℕ} (hn : n ≠ 0) (j : ℕ) : digitCount (n * 10 ^ j) = digitCount n + j := by
  have hpos := digitCount_pos n
  have hlow := Nat.mul_le_mul_right (10 ^ j) (pow_le_of_digitCount hn)
  have hhigh := Nat.mul_lt_mul_of_pos_right (lt_pow_digitCount n)
    (Nat.pow_pos (show 0 < 10 by norm_num) (n := j))
  rw [← pow_add] at hlow hhigh
  have hcount := digitCount_eq hlow (by rwa [show digitCount n - 1 + j + 1 = digitCount n + j by omega])
  omega

/-- A value of at most `precision` digits within the range of exponents. -/
def Representable (v : ℚ) : Prop :=
  ∃ d : Decimal, d.value = v ∧ d.coefficient < 10 ^ precision ∧ tinyExponent ≤ d.exponent ∧
    (d.coefficient = 0 ∨ d.exponent + digitCount d.coefficient - 1 ≤ maxExponent)

theorem representable_zero : Representable 0 :=
  ⟨zero, zero_value, by decide, by decide, .inl rfl⟩

theorem roundHalfEven_exact (n k : ℕ) : roundHalfEven (n * 10 ^ k) (10 ^ k) = n := by
  have hpos := Nat.pow_pos (show 0 < 10 by norm_num) (n := k)
  simp only [roundHalfEven, Nat.mul_mod_left, Nat.mul_div_cancel _ hpos]
  rw [if_pos (by omega)]

theorem adjusted_eq {a b : Decimal} (h : a.value = b.value) (ha : a.coefficient ≠ 0) :
    b.coefficient ≠ 0 ∧
      a.exponent + digitCount a.coefficient = b.exponent + digitCount b.coefficient := by
  have hb : b.coefficient ≠ 0 := fun hzero => ha ((value_eq_zero a).mp (h.trans ((value_eq_zero b).mpr hzero)))
  refine ⟨hb, ?_⟩
  have hscaled : a.scaled (common a b) = b.scaled (common a b) := by
    have hp : (10 : ℚ) ^ common a b ≠ 0 := by positivity
    have := (scaled_left a b).trans (h.trans (scaled_right a b).symm)
    exact_mod_cast mul_right_cancel₀ hp this
  have hcounts := congrArg digitCount hscaled
  simp only [scaled, digitCount_mul_pow ha, digitCount_mul_pow hb] at hcounts
  have hleft : common a b ≤ a.exponent := min_le_left _ _
  have hright : common a b ≤ b.exponent := min_le_right _ _
  omega

theorem coefficient_eq {a b : Decimal} (h : a.value = b.value) (hle : a.exponent ≤ b.exponent) :
    a.coefficient = b.coefficient * 10 ^ (b.exponent - a.exponent).toNat := by
  have hp : (10 : ℚ) ^ a.exponent ≠ 0 := by positivity
  have hscaled := scaled_value b a.exponent hle
  rw [← h] at hscaled
  exact_mod_cast (mul_right_cancel₀ hp hscaled).symm

theorem fix_of_representable {d : Decimal} (h : Representable d.value) :
    ∃ r, fix d = some r ∧ r.value = d.value := by
  obtain ⟨b, hvalue, hdigits, htiny, hmax⟩ := h
  by_cases hzero : d.coefficient = 0
  · refine ⟨_, by rw [fix, if_pos hzero], ?_⟩
    rw [(value_eq_zero d).mpr hzero, value_eq_zero]
  · obtain ⟨hb, hadjusted⟩ := adjusted_eq hvalue.symm hzero
    have hcount := (digitCount_le_iff (show 0 < precision by decide)).mpr hdigits
    have hrange := hmax.resolve_left hb
    have hmove : max (digitCount d.coefficient + d.exponent - precision) tinyExponent ≤ b.exponent := by
      apply max_le _ htiny
      omega
    rw [fix, if_neg hzero]
    generalize hleast : max (digitCount d.coefficient + d.exponent - (precision : ℤ)) tinyExponent = least
      at hmove
    have hfits : digitCount d.coefficient + d.exponent - (precision : ℤ) ≤ least :=
      hleast ▸ le_max_left _ _
    by_cases hless : d.exponent < least
    · -- the digits that are rounded away are zeros
      have hcoefficient := coefficient_eq hvalue.symm (by omega : d.exponent ≤ b.exponent)
      have hsplit : (b.exponent - d.exponent).toNat =
          (b.exponent - least).toNat + (least - d.exponent).toNat := by omega
      rw [hsplit, pow_add, ← mul_assoc] at hcoefficient
      have hrounded : roundHalfEven d.coefficient (10 ^ (least - d.exponent).toNat) =
          b.coefficient * 10 ^ (b.exponent - least).toNat := by
        rw [hcoefficient, roundHalfEven_exact]
      have hplaces := digitCount_mul_pow hb (b.exponent - least).toNat
      have hfew : digitCount (b.coefficient * 10 ^ (b.exponent - least).toNat) ≤ precision := by omega
      simp only [if_pos hless, hrounded, if_pos hfew]
      rw [if_pos (by omega)]
      exact ⟨_, rfl, (scaled_value b least hmove).trans hvalue⟩
    · have hfew : digitCount d.coefficient ≤ precision := by omega
      simp only [if_neg hless, if_pos hfew]
      rw [if_pos (by omega)]
      exact ⟨d, rfl, rfl⟩

theorem contextAdd_of_representable {a b : Decimal} (h : Representable (a.value + b.value)) :
    ∃ r, contextAdd a b = some r ∧ r.value = a.value + b.value := by
  have hvalue : (⟨a.scaled (common a b) + b.scaled (common a b), common a b⟩ : Decimal).value =
      a.value + b.value := by
    rw [← scaled_left a b, ← scaled_right a b, ← add_mul]
    simp [value]
  rw [← hvalue] at h ⊢
  exact fix_of_representable h

/-- A sum whose partial sums all have at most `precision` digits is exact. -/
theorem foldlM_contextAdd (amounts : List Decimal) (start : Decimal)
    (h : ∀ part, part <+: amounts → Representable (start.value + (part.map value).sum)) :
    ∃ r, amounts.foldlM contextAdd start = some r ∧ r.value = start.value + (amounts.map value).sum := by
  induction amounts generalizing start with
  | nil => exact ⟨start, rfl, by simp⟩
  | cons amount amounts ih =>
    obtain ⟨next, hnext, hvalue⟩ := contextAdd_of_representable
      (by simpa using h [amount] (List.prefix_append [amount] amounts))
    obtain ⟨r, hr, hsum⟩ := ih next fun part hpart => by
      have := h (amount :: part) (List.prefix_cons_inj amount |>.mpr hpart)
      rwa [List.map_cons, List.sum_cons, ← add_assoc, ← hvalue] at this
    refine ⟨r, ?_, ?_⟩
    · rw [List.foldlM_cons, hnext]
      exact hr
    · rw [hsum, hvalue, List.map_cons, List.sum_cons, add_assoc]

end Decimal
end Python
