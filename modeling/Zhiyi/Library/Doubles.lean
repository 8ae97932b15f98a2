import Zhiyi.Library.DateTime

set_option autoImplicit false

/-! How far a double is from the milliseconds it stands for, once it is shown in
microseconds again. -/
namespace Python
namespace DateTime

theorem roundHalfEven_error (num : ℕ) {den : ℕ} (hden : 0 < den) :
    |2 * ((roundHalfEven num den : ℤ) * den - num)| ≤ den := by
  have hdiv : ((num / den : ℕ) : ℤ) * den + (num % den : ℕ) = num := by
    exact_mod_cast Nat.div_add_mod' num den
  have hmod := Nat.mod_lt num hden
  have hsucc : ((num / den + 1 : ℕ) : ℤ) * den = ((num / den : ℕ) : ℤ) * den + den := by push_cast; ring
  unfold roundHalfEven
  dsimp only
  rw [abs_le]
  split_ifs with hlow hhigh heven
  all_goals first | rw [hsucc] | skip
  all_goals omega

theorem div_le_roundHalfEven (num den : ℕ) : num / den ≤ roundHalfEven num den := by
  unfold roundHalfEven
  dsimp only
  split_ifs <;> omega

theorem roundHalfEven_eq {num den : ℕ} {x : ℤ} (h : |2 * (x * den - num)| < den) :
    (roundHalfEven num den : ℤ) = x := by
  have hden : 0 < den := by
    have := (abs_nonneg (2 * (x * den - num))).trans_lt h
    exact_mod_cast this
  have herror := roundHalfEven_error num hden
  rw [abs_le] at herror
  rw [abs_lt] at h
  have hden : (0 : ℤ) < den := by exact_mod_cast hden
  have hlow : -(1 : ℤ) * den < (roundHalfEven num den - x) * den := by linarith
  have hhigh : ((roundHalfEven num den : ℤ) - x) * den < 1 * den := by linarith
  have := lt_of_mul_lt_mul_right hlow hden.le
  have := lt_of_mul_lt_mul_right hhigh hden.le
  omega

theorem roundToDouble_zero (den : ℕ) : roundToDouble 0 den = (0, 0) := rfl

theorem roundToDouble_error (num : ℕ) {den : ℕ} (hden : 0 < den) :
    |2 * (((roundToDouble num den).1 : ℤ) * den - num * 2 ^ (roundToDouble num den).2)| ≤ den := by
  unfold roundToDouble
  split_ifs with hzero
  · simp [hzero]
  · exact_mod_cast roundHalfEven_error (num * 2 ^ _) hden

theorem le_roundToDouble_shift {num : ℕ} (den : ℕ) (hnum : num ≠ 0) :
    52 + Nat.log2 den - Nat.log2 num ≤ (roundToDouble num den).2 := by
  unfold roundToDouble
  rw [if_neg hnum]
  dsimp only
  split_ifs <;> omega

theorem shift_of_field {milliseconds : ℕ} (h : milliseconds < 2 ^ 48) (hnum : milliseconds ≠ 0) :
    14 ≤ (roundToDouble milliseconds 1000).2 := by
  have hlog : Nat.log2 milliseconds < 48 := (Nat.log2_lt hnum).mpr h
  have hden : Nat.log2 1000 = 9 := by decide
  have := le_roundToDouble_shift 1000 hnum
  omega

theorem shift_of_early {milliseconds : ℕ} (h : milliseconds < 1000 * 2 ^ 33) (hnum : milliseconds ≠ 0) :
    20 ≤ (roundToDouble milliseconds 1000).2 := by
  have hlog : Nat.log2 milliseconds < 43 := (Nat.log2_lt hnum).mpr (h.trans (by norm_num))
  have hden : Nat.log2 1000 = 9 := by decide
  unfold roundToDouble
  rw [if_neg hnum]
  dsimp only
  rw [hden]
  split_ifs with hwide
  · -- one digit fewer: the quotient reached 2 ^ 53, which takes more than 20 digits
    by_contra hshift
    have hdigits : 53 + 9 - Nat.log2 milliseconds = 20 := by omega
    rw [hdigits] at hwide
    have := (Nat.le_div_iff_mul_le (by norm_num)).mp hwide
    norm_num at this h
    omega
  · omega

theorem shift_of_fraction {fraction shift : ℕ} (h : fraction < 2 ^ shift) (hnum : fraction * 1000000 ≠ 0) :
    33 ≤ (roundToDouble (fraction * 1000000) (2 ^ shift)).2 := by
  have hbound : fraction * 1000000 < 2 ^ (shift + 20) := by
    rw [pow_add]
    exact Nat.mul_lt_mul'' h (by norm_num)
  have hlog : Nat.log2 (fraction * 1000000) < shift + 20 := (Nat.log2_lt hnum).mpr hbound
  have hden : Nat.log2 (2 ^ shift) = shift := Nat.log2_two_pow
  have := le_roundToDouble_shift (2 ^ shift) hnum
  omega

/-- Two roundings in a row: the fraction is off by half of its own unit, and by the error of
    the seconds in microseconds. -/
theorem fraction_error {milliseconds mantissa shift fraction fractionShift : ℕ}
    (hseconds : |2 * ((mantissa : ℤ) * 1000 - milliseconds * 2 ^ shift)| ≤ 1000)
    (hmicros : |2 * ((fraction : ℤ) * 2 ^ shift -
      (mantissa % 2 ^ shift * 1000000 : ℕ) * 2 ^ fractionShift)| ≤ 2 ^ shift) :
    |2 * ((milliseconds * 1000 - (mantissa / 2 ^ shift : ℕ) * 1000000 : ℤ) * 2 ^ fractionShift -
      fraction)| * 2 ^ shift ≤ 2 ^ shift + 1000000 * 2 ^ fractionShift := by
  have hdiv : ((mantissa / 2 ^ shift : ℕ) : ℤ) * 2 ^ shift + (mantissa % 2 ^ shift : ℕ) = mantissa := by
    exact_mod_cast Nat.div_add_mod' mantissa (2 ^ shift)
  generalize hwhole : mantissa / 2 ^ shift = whole at *
  generalize hrest : mantissa % 2 ^ shift = rest at *
  push_cast at hmicros ⊢
  generalize (2 : ℤ) ^ shift = p at *
  have hq : (0 : ℤ) ≤ 2 ^ fractionShift := by positivity
  generalize (2 : ℤ) ^ fractionShift = q at *
  have hp : |p| = p := abs_of_nonneg ((abs_nonneg _).trans hmicros)
  have hfirst : |(1000 * q) * (2 * ((mantissa : ℤ) * 1000 - milliseconds * p))| ≤ 1000 * q * 1000 := by
    rw [abs_mul, abs_of_nonneg (by positivity : 0 ≤ 1000 * q)]
    exact mul_le_mul_of_nonneg_left hseconds (by positivity)
  calc |2 * ((milliseconds * 1000 - whole * 1000000 : ℤ) * q - fraction)| * p
      = |2 * ((milliseconds * 1000 - whole * 1000000 : ℤ) * q - fraction) * p| := by rw [abs_mul _ p, hp]
    _ = |-(2 * ((fraction : ℤ) * p - rest * 1000000 * q)) -
          (1000 * q) * (2 * ((mantissa : ℤ) * 1000 - milliseconds * p))| := by
        rw [← hdiv]
        congr 1
        ring
    _ ≤ p + 1000 * q * 1000 := by
        refine (abs_sub _ _).trans (add_le_add ?_ hfirst)
        rw [abs_neg]
        exact hmicros
    _ = p + 1000000 * q := by ring

/-- The mantissa of the seconds in units of `1 / 2 ^ shift`, and that of the rest in
    microseconds. -/
theorem exists_roundings (milliseconds : ℕ) : ∃ mantissa shift fraction fractionShift : ℕ,
    roundToDouble milliseconds 1000 = (mantissa, shift) ∧
    roundToDouble (mantissa % 2 ^ shift * 1000000) (2 ^ shift) = (fraction, fractionShift) ∧
    doubleMicros milliseconds =
      mantissa / 2 ^ shift * 1000000 + roundHalfEven fraction (2 ^ fractionShift) ∧
    |2 * ((milliseconds * 1000 - (mantissa / 2 ^ shift : ℕ) * 1000000 : ℤ) * 2 ^ fractionShift -
      fraction)| * 2 ^ shift ≤ 2 ^ shift + 1000000 * 2 ^ fractionShift := by
  refine ⟨_, _, _, _, Prod.mk.eta.symm, Prod.mk.eta.symm, rfl, fraction_error ?_ ?_⟩
  · exact_mod_cast roundToDouble_error milliseconds (by norm_num : 0 < 1000)
  · exact_mod_cast roundToDouble_error _ (Nat.two_pow_pos _)

theorem doubleMicros_zero : doubleMicros 0 = 0 := rfl

theorem seconds_le_doubleMicros (milliseconds : ℕ) :
    milliseconds / 1000 * 1000000 ≤ doubleMicros milliseconds := by
  rcases eq_or_ne milliseconds 0 with rfl | hnum
  · simp
  obtain ⟨mantissa, shift, fraction, fractionShift, hfirst, -, hvalue, -⟩ := exists_roundings milliseconds
  have hmantissa : milliseconds * 2 ^ shift / 1000 ≤ mantissa := by
    unfold roundToDouble at hfirst
    rw [if_neg hnum] at hfirst
    obtain ⟨rfl, rfl⟩ := Prod.mk.inj hfirst
    exact div_le_roundHalfEven _ _
  have hwhole : milliseconds / 1000 ≤ mantissa / 2 ^ shift := by
    rw [Nat.le_div_iff_mul_le (Nat.two_pow_pos shift)]
    refine le_trans ?_ hmantissa
    rw [Nat.le_div_iff_mul_le (by norm_num), mul_right_comm]
    exact Nat.mul_le_mul_right _ (Nat.div_mul_le_self milliseconds 1000)
  rw [hvalue]
  exact (Nat.mul_le_mul_right _ hwhole).trans (Nat.le_add_right _ _)

theorem doubleMicros_error {milliseconds : ℕ} (h : milliseconds < 2 ^ 48) :
    |(doubleMicros milliseconds : ℤ) - milliseconds * 1000| ≤ 32 := by
  rcases eq_or_ne milliseconds 0 with rfl | hnum
  · simp [doubleMicros_zero]
  obtain ⟨mantissa, shift, fraction, fractionShift, hfirst, -, hvalue, herror⟩ :=
    exists_roundings milliseconds
  have hshift := shift_of_field h hnum
  rw [hfirst] at hshift
  have hp : (2 : ℤ) ^ 14 ≤ 2 ^ shift := pow_le_pow_right₀ (by norm_num) hshift
  have hround := roundHalfEven_error fraction (Nat.two_pow_pos fractionShift)
  have hq : (1 : ℤ) ≤ 2 ^ fractionShift := one_le_pow₀ (by norm_num)
  rw [hvalue]
  push_cast at hround herror ⊢
  generalize (roundHalfEven fraction (2 ^ fractionShift) : ℤ) = micros at *
  generalize ((mantissa : ℤ) / 2 ^ shift) = whole at *
  generalize (2 : ℤ) ^ shift = p at *
  generalize (2 : ℤ) ^ fractionShift = q at *
  have hsum : |2 * (whole * 1000000 + micros - milliseconds * 1000)| * q ≤
      q + |2 * ((milliseconds * 1000 - whole * 1000000 : ℤ) * q - fraction)| := by
    calc |2 * (whole * 1000000 + micros - milliseconds * 1000)| * q
        = |2 * (micros * q - fraction) -
            2 * ((milliseconds * 1000 - whole * 1000000 : ℤ) * q - fraction)| := by
          rw [← abs_of_nonneg (by linarith : (0 : ℤ) ≤ q), ← abs_mul, abs_of_nonneg (by linarith : (0 : ℤ) ≤ q)]
          congr 1
          ring
      _ ≤ _ := (abs_sub _ _).trans (add_le_add_left hround _)
  have hscaled : |2 * (whole * 1000000 + micros - milliseconds * 1000)| * (q * p) ≤ 64 * (q * p) := by
    nlinarith
  have hhalf := le_of_mul_le_mul_right hscaled (by nlinarith)
  rw [abs_mul] at hhalf
  norm_num at hhalf
  linarith

theorem doubleMicros_early {milliseconds : ℕ} (h : milliseconds < 1000 * 2 ^ 33) :
    doubleMicros milliseconds = milliseconds * 1000 := by
  rcases eq_or_ne milliseconds 0 with rfl | hnum
  · rfl
  obtain ⟨mantissa, shift, fraction, fractionShift, hfirst, hsecond, hvalue, herror⟩ :=
    exists_roundings milliseconds
  have hshift := shift_of_early h hnum
  rw [hfirst] at hshift
  have hp : (2 : ℤ) ^ 20 ≤ 2 ^ shift := pow_le_pow_right₀ (by norm_num) hshift
  have hnear : |2 * ((milliseconds * 1000 - (mantissa / 2 ^ shift : ℕ) * 1000000 : ℤ) *
      (2 ^ fractionShift : ℕ) - fraction)| < (2 ^ fractionShift : ℕ) := by
    push_cast at herror ⊢
    generalize (milliseconds * 1000 - (mantissa / 2 ^ shift) * 1000000 : ℤ) = rest at *
    rcases eq_or_ne (mantissa % 2 ^ shift * 1000000) 0 with hzero | hrest
    · rw [hzero, roundToDouble_zero] at hsecond
      cases hsecond
      have htwice : |2 * rest| < 2 := by
        by_contra hlarge
        norm_num at herror hlarge
        nlinarith
      rw [abs_mul] at htwice
      have hrest : rest = 0 := Int.abs_lt_one_iff.mp (by norm_num at htwice; linarith)
      simp [hrest]
    · have hfraction := shift_of_fraction (Nat.mod_lt mantissa (Nat.two_pow_pos shift)) hrest
      rw [hsecond] at hfraction
      have hq : (2 : ℤ) ^ 33 ≤ 2 ^ fractionShift := pow_le_pow_right₀ (by norm_num) hfraction
      by_contra hlarge
      rw [not_lt] at hlarge
      nlinarith
  have hmicros := roundHalfEven_eq hnear
  rw [hvalue]
  omega

end DateTime
end Python
