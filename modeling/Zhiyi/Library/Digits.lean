import Mathlib

set_option autoImplicit false

/-! Decimal digit strings and the numbers they denote. -/
namespace Digits

def AllDigits (cs : List Char) : Prop := ∀ c ∈ cs, c.isDigit = true

/-- No zero in front, except in the text of zero. -/
def Leading (cs : List Char) : Prop := cs = ['0'] ∨ ∃ c rest, cs = c :: rest ∧ c ≠ '0'

def value (cs : List Char) : ℕ := Nat.ofDigitChars 10 cs 0

def digit (c : Char) : ℕ := c.toNat - '0'.toNat

def hexDigit (n : ℕ) : Char := "0123456789abcdef".toList.getD n '0'

theorem allDigits_toDigits (n : ℕ) : AllDigits (Nat.toDigits 10 n) :=
  fun _ hc => Nat.isDigit_of_mem_toDigits (by norm_num) (by norm_num) hc

theorem AllDigits.of_append_left {a b : List Char} (h : AllDigits (a ++ b)) : AllDigits a :=
  fun c hc => h c (List.mem_append_left _ hc)

theorem AllDigits.of_append_right {a b : List Char} (h : AllDigits (a ++ b)) : AllDigits b :=
  fun c hc => h c (List.mem_append_right _ hc)

theorem AllDigits.append {a b : List Char} (ha : AllDigits a) (hb : AllDigits b) :
    AllDigits (a ++ b) := by
  intro c hc
  rcases List.mem_append.mp hc with hc | hc
  · exact ha c hc
  · exact hb c hc

theorem digit_bounds {c : Char} (h : c.isDigit = true) : 48 ≤ c.toNat ∧ c.toNat ≤ 57 := by
  simp only [Char.isDigit, Bool.and_eq_true, decide_eq_true_eq] at h
  exact ⟨h.1, h.2⟩

theorem digit_lt {c : Char} (h : c.isDigit = true) : digit c < 10 := by
  obtain ⟨_, hle⟩ := digit_bounds h
  have hzero : '0'.toNat = 48 := rfl
  unfold digit
  omega

theorem digit_inj {c d : Char} (hc : c.isDigit = true) (hd : d.isDigit = true)
    (h : digit c = digit d) : c = d := by
  obtain ⟨hcge, -⟩ := digit_bounds hc
  obtain ⟨hdge, -⟩ := digit_bounds hd
  have hzero : '0'.toNat = 48 := rfl
  unfold digit at h
  exact Char.toNat_inj.mp (by omega)

theorem value_cons (c : Char) (cs : List Char) :
    value (c :: cs) = digit c * 10 ^ cs.length + value cs := by
  unfold value
  rw [Nat.ofDigitChars_cons, Nat.ofDigitChars_eq_ofDigitChars_zero]
  simp [digit, mul_comm]

theorem value_append (a b : List Char) : value (a ++ b) = value a * 10 ^ b.length + value b := by
  induction a with
  | nil => simp [value]
  | cons c a ih =>
    rw [List.cons_append, value_cons, value_cons, ih, List.length_append, pow_add]
    ring

theorem value_lt {cs : List Char} (h : AllDigits cs) : value cs < 10 ^ cs.length := by
  induction cs with
  | nil => simp [value]
  | cons c cs ih =>
    have hrest := ih fun d hd => h d (List.mem_cons_of_mem _ hd)
    have hdigit := digit_lt (h c List.mem_cons_self)
    rw [value_cons, List.length_cons, pow_succ]
    calc digit c * 10 ^ cs.length + value cs < digit c * 10 ^ cs.length + 10 ^ cs.length := by omega
      _ = (digit c + 1) * 10 ^ cs.length := by ring
      _ ≤ 10 * 10 ^ cs.length := Nat.mul_le_mul_right _ (by omega)
      _ = 10 ^ cs.length * 10 := by ring

theorem parts_eq {a b m r s : ℕ} (hr : r < m) (hs : s < m) (h : a * m + r = b * m + s) :
    a = b ∧ r = s := by
  have hm : 0 < m := by omega
  have hdiv := congrArg (· / m) h
  have hmod := congrArg (· % m) h
  simp only [Nat.mul_comm _ m, Nat.mul_add_div hm, Nat.div_eq_of_lt hr, Nat.div_eq_of_lt hs,
    Nat.add_zero] at hdiv
  simp only [Nat.mul_comm _ m, Nat.mul_add_mod, Nat.mod_eq_of_lt hr, Nat.mod_eq_of_lt hs] at hmod
  exact ⟨hdiv, hmod⟩

theorem value_inj {a b : List Char} (ha : AllDigits a) (hb : AllDigits b)
    (hlength : a.length = b.length) (h : value a = value b) : a = b := by
  induction a generalizing b with
  | nil => exact (List.length_eq_zero_iff.mp hlength.symm).symm
  | cons c a ih =>
    obtain ⟨d, b, rfl⟩ : ∃ d b', b = d :: b' := by
      cases b with
      | nil => simp at hlength
      | cons d b => exact ⟨d, b, rfl⟩
    have ha' : AllDigits a := fun e he => ha e (List.mem_cons_of_mem _ he)
    have hb' : AllDigits b := fun e he => hb e (List.mem_cons_of_mem _ he)
    have hlength : a.length = b.length := by simpa using hlength
    rw [value_cons, value_cons, hlength] at h
    obtain ⟨hdigit, hrest⟩ := parts_eq (hlength ▸ value_lt ha') (value_lt hb') h
    rw [digit_inj (ha c List.mem_cons_self) (hb d List.mem_cons_self) hdigit, ih ha' hb' hlength hrest]

theorem pow_le_value {c : Char} (cs : List Char) (hdigit : c.isDigit = true) (hne : c ≠ '0') :
    10 ^ cs.length ≤ value (c :: cs) := by
  have hpos : digit c ≠ 0 := by
    intro h
    exact hne (digit_inj hdigit (by decide) (h.trans (by decide)))
  rw [value_cons]
  calc 10 ^ cs.length ≤ digit c * 10 ^ cs.length := Nat.le_mul_of_pos_left _ (by omega)
    _ ≤ digit c * 10 ^ cs.length + value cs := Nat.le_add_right _ _

theorem eq_of_leading {a b : List Char} (ha : AllDigits a) (hb : AllDigits b) (hla : Leading a)
    (hlb : Leading b) (h : value a = value b) : a = b := by
  have hzero : value ['0'] = 0 := by decide
  have hpos : ∀ {c : Char} {cs : List Char}, AllDigits (c :: cs) → c ≠ '0' → 0 < value (c :: cs) :=
    fun hall hne => lt_of_lt_of_le (by positivity) (pow_le_value _ (hall _ List.mem_cons_self) hne)
  rcases hla with rfl | ⟨c, a, rfl, hc⟩
  · rcases hlb with rfl | ⟨d, b, rfl, hd⟩
    · rfl
    · exact absurd (h.symm.trans hzero) (hpos hb hd).ne'
  · rcases hlb with rfl | ⟨d, b, rfl, hd⟩
    · exact absurd (h.trans hzero) (hpos ha hc).ne'
    · refine value_inj ha hb ?_ h
      have hleft := pow_le_value a (ha c List.mem_cons_self) hc
      have hright := pow_le_value b (hb d List.mem_cons_self) hd
      have hlt : a.length < (d :: b).length := (Nat.pow_lt_pow_iff_right (by norm_num)).mp
        (hleft.trans_lt (h ▸ value_lt hb))
      have hgt : b.length < (c :: a).length := (Nat.pow_lt_pow_iff_right (by norm_num)).mp
        (hright.trans_lt (h ▸ value_lt ha))
      simp only [List.length_cons] at hlt hgt ⊢
      omega

theorem value_mod_ten {cs : List Char} {c : Char} (hc : c.isDigit = true) :
    value (cs ++ [c]) % 10 = digit c := by
  rw [value_append]
  have h : value [c] = digit c := by rw [value_cons]; simp [value]
  rw [h, List.length_singleton, pow_one, Nat.mul_comm, Nat.mul_add_mod, Nat.mod_eq_of_lt (digit_lt hc)]

end Digits
