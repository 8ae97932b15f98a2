import Zhiyi.Library.Decimal
import Zhiyi.Library.Digits

set_option autoImplicit false

/-! Exact decimal arithmetic of the budget, and the exponent-free text used for
hashing and storage. Two amounts have one text exactly when they are equal. -/
namespace Zhiyi
open Python

def normalizeDecimal (value : Decimal) : Decimal := if value.isZero then Decimal.zero else value

/-- `while digits[-1] == 0`, on the reversed digits. -/
def popZeros : List Char → ℤ → List Char × ℤ
  | [], exponent => ([], exponent)
  | c :: rest, exponent => if c = '0' then popZeros rest (exponent + 1) else (c :: rest, exponent)

/-- The text of `coefficient * 10 ^ exponent`. -/
def layout (coefficient : List Char) (exponent : ℤ) : List Char :=
  if 0 ≤ exponent then coefficient ++ List.replicate exponent.toNat '0'
  else
    let decimalAt : ℤ := coefficient.length + exponent
    if 0 < decimalAt then
      coefficient.take decimalAt.toNat ++ '.' :: coefficient.drop decimalAt.toNat
    else '0' :: '.' :: (List.replicate (-decimalAt).toNat '0' ++ coefficient)

def canonicalDecimal (value : Decimal) : String :=
  let normalized := normalizeDecimal value
  if normalized.isZero then "0"
  else
    let (digits, exponent) :=
      popZeros (Nat.toDigits 10 normalized.coefficient).reverse normalized.exponent
    String.ofList (layout digits.reverse exponent)

/-- `int("".join(digits))`, bounded like every conversion from text. -/
def digitsToInt (coefficient : ℕ) : Except PyError ℕ :=
  if WithinStrDigits coefficient then .ok coefficient else .error digitLimit

def exactDecimalAdd (left right : Decimal) : Except PyError Decimal := do
  let exponent := min left.exponent right.exponent
  let leftCoefficient ← digitsToInt left.coefficient
  let rightCoefficient ← digitsToInt right.coefficient
  let total := leftCoefficient * 10 ^ (left.exponent - exponent).toNat +
    rightCoefficient * 10 ^ (right.exponent - exponent).toNat
  let _ ← intToStr total
  return ⟨total, exponent⟩

/-- `(?:0|[1-9][0-9]*)(?:\.[0-9]*[1-9])?\Z`. -/
def matchesDecimalPattern (s : String) : Bool :=
  let whole := s.toList.takeWhile Char.isDigit
  let rest := s.toList.dropWhile Char.isDigit
  (whole == ['0'] || whole.head?.any (· != '0')) &&
    match rest with
    | [] => true
    | c :: fraction =>
      c == '.' && fraction.all Char.isDigit && fraction.getLast?.any (· != '0')

/-- The coefficient `exactDecimalAdd` computes, which must fit the digit limit. -/
def alignedSum (left right : Decimal) : ℕ :=
  left.scaled (left.common right) + right.scaled (left.common right)

theorem exactDecimalAdd_eq (left right : Decimal) :
    exactDecimalAdd left right =
      if WithinStrDigits left.coefficient ∧ WithinStrDigits right.coefficient ∧
        WithinStrDigits (alignedSum left right)
      then .ok ⟨alignedSum left right, left.common right⟩ else .error digitLimit := by
  unfold alignedSum Decimal.scaled Decimal.common
  by_cases hl : WithinStrDigits left.coefficient
  · by_cases hr : WithinStrDigits right.coefficient
    · simp only [exactDecimalAdd, digitsToInt, intToStr, hl, hr, true_and, if_true, bind,
        Except.bind]
      split_ifs <;> rfl
    · simp [exactDecimalAdd, digitsToInt, hl, hr, bind, Except.bind]
  · simp [exactDecimalAdd, digitsToInt, hl, bind, Except.bind]

theorem exactDecimalAdd_value {left right total : Decimal}
    (h : exactDecimalAdd left right = .ok total) : total.value = left.value + right.value := by
  rw [exactDecimalAdd_eq] at h
  split_ifs at h
  cases h
  rw [← Decimal.scaled_left left right, ← Decimal.scaled_right left right, ← add_mul]
  simp [Decimal.value, alignedSum]

theorem normalizeDecimal_value (d : Decimal) : (normalizeDecimal d).value = d.value := by
  unfold normalizeDecimal
  split_ifs with h
  · have hz : d.coefficient = 0 := by simpa [Decimal.isZero] using h
    simp [(Decimal.value_eq_zero d).mpr hz]
  · rfl

@[simp] theorem normalizeDecimal_idem (d : Decimal) :
    normalizeDecimal (normalizeDecimal d) = normalizeDecimal d := by
  unfold normalizeDecimal
  split_ifs with h h' <;> rfl

theorem digitChar_eq_zero {n : ℕ} (h : n < 10) : Nat.digitChar n = '0' ↔ n = 0 := by
  revert n
  decide

theorem popZeros_toDigits (n : ℕ) (h : n ≠ 0) (exponent : ℤ) :
    ∃ m k : ℕ, n = m * 10 ^ k ∧ m % 10 ≠ 0 ∧
      popZeros (Nat.toDigits 10 n).reverse exponent =
        ((Nat.toDigits 10 m).reverse, exponent + k) := by
  induction n using Nat.strong_induction_on generalizing exponent with
  | _ n ih =>
    by_cases hlast : n % 10 = 0
    · have hten : 10 ≤ n := by omega
      obtain ⟨m, k, hm, hmod, hpop⟩ := ih (n / 10) (by omega) (by omega) (exponent + 1)
      refine ⟨m, k + 1, ?_, hmod, ?_⟩
      · have hn : n = n / 10 * 10 := by omega
        calc n = n / 10 * 10 := hn
          _ = m * 10 ^ k * 10 := by rw [← hm]
          _ = m * 10 ^ (k + 1) := by rw [pow_succ, mul_assoc]
      · rw [Nat.toDigits_of_base_le (by norm_num) hten, List.reverse_append, hlast]
        simp only [List.reverse_cons, List.reverse_nil, List.nil_append, List.singleton_append]
        rw [popZeros, if_pos (by decide), hpop]
        congr 1
        push_cast
        ring
    · refine ⟨n, 0, by simp, hlast, ?_⟩
      have hdigit : Nat.digitChar (n % 10) ≠ '0' := by
        rw [Ne, digitChar_eq_zero (Nat.mod_lt _ (by norm_num))]
        exact hlast
      have hsplit : ∃ rest, (Nat.toDigits 10 n).reverse = Nat.digitChar (n % 10) :: rest := by
        by_cases hten : 10 ≤ n
        · rw [Nat.toDigits_of_base_le (by norm_num) hten]
          exact ⟨(Nat.toDigits 10 (n / 10)).reverse, by simp⟩
        · rw [Nat.toDigits_of_lt_base (by omega), Nat.mod_eq_of_lt (by omega)]
          exact ⟨[], rfl⟩
      obtain ⟨rest, hrest⟩ := hsplit
      rw [hrest, popZeros, if_neg hdigit]
      simp

/-- A coefficient without trailing zeros and its exponent. -/
structure NormalForm (d : Decimal) where
  coefficient : ℕ
  exponent : ℤ
  lastDigit : coefficient % 10 ≠ 0
  value_eq : d.value = coefficient * (10 : ℚ) ^ exponent
  text : canonicalDecimal d = String.ofList (layout (Nat.toDigits 10 coefficient) exponent)

theorem exists_normalForm (d : Decimal) (h : d.coefficient ≠ 0) : Nonempty (NormalForm d) := by
  obtain ⟨m, k, hm, hmod, hpop⟩ := popZeros_toDigits d.coefficient h d.exponent
  have hnorm : normalizeDecimal d = d := by simp [normalizeDecimal, Decimal.isZero, h]
  refine ⟨⟨m, d.exponent + k, hmod, ?_, ?_⟩⟩
  · unfold Decimal.value
    rw [hm, zpow_add₀ (by norm_num : (10 : ℚ) ≠ 0), zpow_natCast]
    push_cast
    ring
  · simp [canonicalDecimal, hnorm, Decimal.isZero, h, hpop]

theorem canonicalDecimal_zero (d : Decimal) (h : d.coefficient = 0) : canonicalDecimal d = "0" := by
  simp [canonicalDecimal, normalizeDecimal, Decimal.isZero, h, Decimal.zero]

theorem normalForm_unique {m n : ℕ} {e f : ℤ} (hm : m % 10 ≠ 0) (hn : n % 10 ≠ 0)
    (h : (m : ℚ) * (10 : ℚ) ^ e = n * (10 : ℚ) ^ f) : m = n ∧ e = f := by
  have shifted : ∀ {m n : ℕ} {e f : ℤ}, m % 10 ≠ 0 → e ≤ f →
      (m : ℚ) * (10 : ℚ) ^ e = n * (10 : ℚ) ^ f → m = n ∧ e = f := by
    intro m n e f hm hle h
    obtain ⟨k, hk⟩ := Int.eq_ofNat_of_zero_le (show 0 ≤ f - e by omega)
    have hf : f = e + k := by omega
    rw [hf, zpow_add₀ (by norm_num : (10 : ℚ) ≠ 0), zpow_natCast, mul_comm ((10 : ℚ) ^ e),
      ← mul_assoc] at h
    have hcancel : (m : ℚ) = n * 10 ^ k := mul_right_cancel₀ (by positivity) h
    have hnat : m = n * 10 ^ k := by exact_mod_cast hcancel
    cases k with
    | zero => exact ⟨by simpa using hnat, by simpa using hf.symm⟩
    | succ k =>
      exfalso
      apply hm
      rw [hnat, pow_succ, ← mul_assoc, Nat.mul_mod_left]
  rcases le_total e f with hle | hle
  · exact shifted hm hle h
  · obtain ⟨hmn, hef⟩ := shifted hn hle h.symm
    exact ⟨hmn.symm, hef.symm⟩

theorem canonicalDecimal_of_value_eq {a b : Decimal} (h : a.value = b.value) :
    canonicalDecimal a = canonicalDecimal b := by
  by_cases ha : a.coefficient = 0
  · have hb : b.coefficient = 0 := by
      rw [← Decimal.value_eq_zero, ← h, Decimal.value_eq_zero, ha]
    rw [canonicalDecimal_zero a ha, canonicalDecimal_zero b hb]
  · have hb : b.coefficient ≠ 0 := by
      rw [Ne, ← Decimal.value_eq_zero, ← h, Decimal.value_eq_zero]
      exact ha
    obtain ⟨na⟩ := exists_normalForm a ha
    obtain ⟨nb⟩ := exists_normalForm b hb
    obtain ⟨hc, he⟩ := normalForm_unique na.lastDigit nb.lastDigit
      (na.value_eq.symm.trans (h.trans nb.value_eq))
    rw [na.text, nb.text, hc, he]

def readDecimal (s : String) : ℚ :=
  let whole := s.toList.takeWhile Char.isDigit
  let fraction := (s.toList.dropWhile Char.isDigit).tail
  Nat.ofDigitChars 10 (whole ++ fraction) 0 / 10 ^ fraction.length

/-- A text split at its decimal point, as the canonical pattern splits it. -/
structure Split (text : List Char) where
  whole : List Char
  fraction : List Char
  text_eq : text = whole ++ (if fraction = [] then [] else '.' :: fraction)
  wholeDigits : ∀ c ∈ whole, c.isDigit
  fractionDigits : ∀ c ∈ fraction, c.isDigit
  leading : whole = ['0'] ∨ whole.head?.any (· != '0')
  trailing : fraction = [] ∨ fraction.getLast?.any (· != '0')

theorem takeWhile_digits {whole : List Char} (rest : List Char) (hw : ∀ c ∈ whole, c.isDigit)
    (hr : rest.head?.all fun c => !c.isDigit) :
    (whole ++ rest).takeWhile Char.isDigit = whole ∧
      (whole ++ rest).dropWhile Char.isDigit = rest := by
  induction whole with
  | nil =>
    cases rest with
    | nil => simp
    | cons c rest => simp_all
  | cons c whole ih =>
    obtain ⟨ht, hd⟩ := ih (fun c hc => hw c (List.mem_cons_of_mem _ hc))
    simp [hw c List.mem_cons_self, ht, hd]

theorem Split.parts {text : List Char} (split : Split text) :
    text.takeWhile Char.isDigit = split.whole ∧
      text.dropWhile Char.isDigit = if split.fraction = [] then [] else '.' :: split.fraction := by
  have h := takeWhile_digits (if split.fraction = [] then [] else '.' :: split.fraction)
    split.wholeDigits (by split_ifs <;> rfl)
  rwa [← split.text_eq] at h

theorem Split.matches {text : List Char} (split : Split text) :
    matchesDecimalPattern (String.ofList text) = true := by
  obtain ⟨hw, hr⟩ := split.parts
  unfold matchesDecimalPattern
  simp only [String.toList_ofList, hw, hr]
  have hleading : (split.whole == ['0'] || split.whole.head?.any (· != '0')) = true := by
    simpa using split.leading
  rw [hleading, Bool.true_and]
  split_ifs with hf
  · rfl
  · have htrailing := split.trailing.resolve_left hf
    have hall : split.fraction.all Char.isDigit = true := List.all_eq_true.mpr split.fractionDigits
    simp [hall, htrailing]

theorem Split.read {text : List Char} (split : Split text) :
    readDecimal (String.ofList text) =
      Nat.ofDigitChars 10 (split.whole ++ split.fraction) 0 / 10 ^ split.fraction.length := by
  obtain ⟨hw, hr⟩ := split.parts
  unfold readDecimal
  simp only [String.toList_ofList, hw, hr]
  split_ifs with hf
  · simp [hf]
  · rfl

theorem toDigits_head_ne_zero (n : ℕ) (h : n ≠ 0) :
    ∃ c rest, Nat.toDigits 10 n = c :: rest ∧ c ≠ '0' := by
  induction n using Nat.strong_induction_on with
  | _ n ih =>
    by_cases hten : 10 ≤ n
    · obtain ⟨c, rest, hc, hne⟩ := ih (n / 10) (by omega) (by omega)
      rw [Nat.toDigits_of_base_le (by norm_num) hten, hc]
      exact ⟨c, rest ++ [Nat.digitChar (n % 10)], rfl, hne⟩
    · rw [Nat.toDigits_of_lt_base (by omega)]
      refine ⟨_, [], rfl, ?_⟩
      rw [Ne, digitChar_eq_zero (by omega)]
      exact h

theorem toDigits_getLast (n : ℕ) : (Nat.toDigits 10 n).getLast? = some (Nat.digitChar (n % 10)) := by
  by_cases hten : 10 ≤ n
  · rw [Nat.toDigits_of_base_le (by norm_num) hten]
    simp
  · rw [Nat.toDigits_of_lt_base (by omega), Nat.mod_eq_of_lt (by omega)]
    rfl

theorem isDigit_of_mem_zeros (k : ℕ) : ∀ c ∈ List.replicate k '0', c.isDigit := by
  intro c hc
  rw [List.eq_of_mem_replicate hc]
  decide

/-- The layout of a normal form splits as the pattern asks, and reads back as
    the number. One case for each place the decimal point can take. -/
theorem exists_split_layout (m : ℕ) (exponent : ℤ) (h : m % 10 ≠ 0) :
    ∃ split : Split (layout (Nat.toDigits 10 m) exponent),
      (Nat.ofDigitChars 10 (split.whole ++ split.fraction) 0 : ℚ) / 10 ^ split.fraction.length =
        m * (10 : ℚ) ^ exponent := by
  obtain ⟨c, rest, hc, hne⟩ := toDigits_head_ne_zero m (by omega)
  have hlast : (Nat.toDigits 10 m).getLast?.any (· != '0') = true := by
    rw [toDigits_getLast, Option.any_some, bne_iff_ne, Ne,
      digitChar_eq_zero (Nat.mod_lt _ (by norm_num))]
    exact h
  have hhead : (Nat.toDigits 10 m).head?.any (· != '0') = true := by simp [hc, hne]
  set digits := Nat.toDigits 10 m with hdigits
  have hread : Nat.ofDigitChars 10 digits 0 = m := by simp [hdigits]
  have hdigit : ∀ c ∈ digits, c.isDigit := Digits.allDigits_toDigits m
  by_cases hint : 0 ≤ exponent
  · obtain ⟨k, rfl⟩ := Int.eq_ofNat_of_zero_le hint
    refine ⟨⟨digits ++ List.replicate k '0', [], by simp [layout], ?_, by simp, ?_, by simp⟩, ?_⟩
    · intro c hc
      rcases List.mem_append.mp hc with hc | hc
      · exact hdigit c hc
      · exact isDigit_of_mem_zeros k c hc
    · exact .inr (by simpa [hc] using hne)
    · simp [Nat.ofDigitChars_append, Nat.ofDigitChars_replicate_zero, hread, mul_comm]
  · by_cases hat : 0 < (digits.length : ℤ) + exponent
    · set k := ((digits.length : ℤ) + exponent).toNat with hk
      have hklt : k < digits.length := by omega
      have hdrop : digits.drop k ≠ [] := by simpa using hklt
      refine ⟨⟨digits.take k, digits.drop k, ?_, ?_, ?_, ?_, ?_⟩, ?_⟩
      · simp only [layout, if_neg hint, if_pos hat, if_neg hdrop, ← hk]
      · exact fun c hc => hdigit c (List.mem_of_mem_take hc)
      · exact fun c hc => hdigit c (List.mem_of_mem_drop hc)
      · refine .inr ?_
        obtain ⟨k', hk'⟩ : ∃ k', k = k' + 1 := ⟨k - 1, by omega⟩
        rw [hk', hc]
        simpa using hne
      · refine .inr ?_
        rw [List.getLast?_drop, if_neg (by omega)]
        exact hlast
      · rw [List.take_append_drop, hread, List.length_drop]
        have hlen : ((digits.length - k : ℕ) : ℤ) = -exponent := by omega
        rw [← zpow_natCast, hlen, zpow_neg, div_inv_eq_mul]
    · set k := (-((digits.length : ℤ) + exponent)).toNat with hk
      refine ⟨⟨['0'], List.replicate k '0' ++ digits, ?_, isDigit_of_mem_zeros 1, ?_, .inl rfl,
        .inr ?_⟩, ?_⟩
      · rw [if_neg (by simp [hc])]
        simp only [layout, if_neg hint, if_neg hat, ← hk]
        rfl
      · intro c hc
        rcases List.mem_append.mp hc with hc | hc
        · exact isDigit_of_mem_zeros k c hc
        · exact hdigit c hc
      · rw [List.getLast?_append_of_ne_nil _ (by simp [hc])]
        exact hlast
      · have hlen : ((k + digits.length : ℕ) : ℤ) = -exponent := by omega
        rw [List.length_append, List.length_replicate, ← zpow_natCast, hlen, zpow_neg,
          div_inv_eq_mul]
        simp [Nat.ofDigitChars_append, Nat.ofDigitChars_replicate_zero, hread,
          Nat.ofDigitChars_cons]

theorem canonicalDecimal_split (d : Decimal) :
    ∃ text, canonicalDecimal d = String.ofList text ∧ ∃ split : Split text,
      (Nat.ofDigitChars 10 (split.whole ++ split.fraction) 0 : ℚ) / 10 ^ split.fraction.length =
        d.value := by
  by_cases hz : d.coefficient = 0
  · refine ⟨['0'], canonicalDecimal_zero d hz,
      ⟨['0'], [], rfl, isDigit_of_mem_zeros 1, isDigit_of_mem_zeros 0, .inl rfl, .inl rfl⟩, ?_⟩
    rw [(Decimal.value_eq_zero d).mpr hz]
    simp [Nat.ofDigitChars_cons]
  · obtain ⟨normal⟩ := exists_normalForm d hz
    obtain ⟨split, hvalue⟩ := exists_split_layout normal.coefficient normal.exponent normal.lastDigit
    exact ⟨_, normal.text, split, hvalue.trans normal.value_eq.symm⟩

theorem canonicalDecimal_matches (d : Decimal) :
    matchesDecimalPattern (canonicalDecimal d) = true := by
  obtain ⟨text, htext, split, -⟩ := canonicalDecimal_split d
  rw [htext]
  exact split.matches

theorem readDecimal_canonicalDecimal (d : Decimal) : readDecimal (canonicalDecimal d) = d.value := by
  obtain ⟨text, htext, split, hvalue⟩ := canonicalDecimal_split d
  rw [htext, split.read, hvalue]

/-- Amounts have one text exactly when they are numerically equal. -/
theorem canonicalDecimal_eq_iff (a b : Decimal) :
    canonicalDecimal a = canonicalDecimal b ↔ a.value = b.value := by
  refine ⟨fun h => ?_, canonicalDecimal_of_value_eq⟩
  rw [← readDecimal_canonicalDecimal a, ← readDecimal_canonicalDecimal b, h]

end Zhiyi
