import Zhiyi.Library.Digits
import Zhiyi.Postgres.RoundTrip

set_option autoImplicit false

/-! Canonical decimal texts and amounts correspond one to one, and the pattern that
the event validator and the row decoder share describes exactly the texts. -/
namespace Zhiyi
open Python

theorem Split.leading_whole {text : List Char} (split : Split text) : Digits.Leading split.whole := by
  rcases split.leading with h | h
  · exact .inl h
  · rcases hwhole : split.whole with _ | ⟨c, rest⟩
    · simp [hwhole] at h
    · exact .inr ⟨c, rest, rfl, by simpa [hwhole] using h⟩

def Split.coefficient {text : List Char} (split : Split text) : ℕ :=
  Digits.value (split.whole ++ split.fraction)

theorem exists_split_of_matches {s : String} (h : matchesDecimalPattern s = true) :
    Nonempty (Split s.toList) := by
  unfold matchesDecimalPattern at h
  have hsplit := @List.takeWhile_append_dropWhile _ Char.isDigit s.toList
  have hdigits : ∀ c ∈ s.toList.takeWhile Char.isDigit, c.isDigit = true := fun c hc =>
    List.mem_takeWhile_imp hc
  generalize s.toList.takeWhile Char.isDigit = whole at h hsplit hdigits
  generalize s.toList.dropWhile Char.isDigit = rest at h hsplit
  obtain ⟨hwhole, hrest⟩ := (Bool.and_eq_true _ _).mp h
  have hleading : whole = ['0'] ∨ whole.head?.any (· != '0') = true := by
    simpa using hwhole
  cases rest with
  | nil =>
    exact ⟨⟨whole, [], by simpa using hsplit.symm, hdigits, by simp, hleading, .inl rfl⟩⟩
  | cons c fraction =>
    obtain ⟨hrest, hlast⟩ := (Bool.and_eq_true _ _).mp hrest
    obtain ⟨hc, hall⟩ := (Bool.and_eq_true _ _).mp hrest
    have hne : fraction ≠ [] := by
      rintro rfl
      simp at hlast
    refine ⟨⟨whole, fraction, ?_, hdigits, List.all_eq_true.mp hall, hleading, .inr hlast⟩⟩
    rw [if_neg hne, ← beq_iff_eq.mp hc, hsplit]

theorem Split.coefficient_mod_ten {text : List Char} (split : Split text) (h : split.fraction ≠ []) :
    split.coefficient % 10 ≠ 0 := by
  have hlast := split.trailing.resolve_left h
  obtain ⟨init, c, hinit⟩ : ∃ init c, split.fraction = init ++ [c] :=
    ⟨_, _, (List.dropLast_append_getLast h).symm⟩
  have hc : c.isDigit = true := split.fractionDigits c (by simp [hinit])
  have hne : c ≠ '0' := by simpa [hinit] using hlast
  unfold Split.coefficient
  rw [hinit, ← List.append_assoc, Digits.value_mod_ten hc]
  exact fun hzero => hne (Digits.digit_inj hc (by decide) (hzero.trans (by decide)))

theorem Split.text_eq_of_coefficient {a b : List Char} (p : Split a) (q : Split b)
    (hlength : p.fraction.length = q.fraction.length) (h : p.coefficient = q.coefficient) : a = b := by
  unfold Split.coefficient at h
  rw [Digits.value_append, Digits.value_append, hlength] at h
  obtain ⟨hwhole, hfraction⟩ := Digits.parts_eq
    (hlength ▸ Digits.value_lt p.fractionDigits) (Digits.value_lt q.fractionDigits) h
  have hw := Digits.eq_of_leading p.wholeDigits q.wholeDigits p.leading_whole q.leading_whole hwhole
  have hf := Digits.value_inj p.fractionDigits q.fractionDigits hlength hfraction
  rw [p.text_eq, q.text_eq, hw, hf]

theorem Split.fraction_le {a b : List Char} (p : Split a) (q : Split b)
    (h : p.coefficient * 10 ^ q.fraction.length = q.coefficient * 10 ^ p.fraction.length) :
    q.fraction.length ≤ p.fraction.length := by
  by_contra hlt
  obtain ⟨k, hk⟩ : ∃ k, q.fraction.length = p.fraction.length + (k + 1) :=
    ⟨q.fraction.length - p.fraction.length - 1, by omega⟩
  have hne : q.fraction ≠ [] := by
    intro hnil
    simp [hnil] at hk
  apply q.coefficient_mod_ten hne
  rw [hk, pow_add, ← mul_assoc, mul_right_comm] at h
  have hcancel : p.coefficient * 10 ^ (k + 1) = q.coefficient :=
    Nat.eq_of_mul_eq_mul_right (by positivity) h
  rw [← hcancel, pow_succ, ← mul_assoc, Nat.mul_mod_left]

theorem Split.text_unique {a b : List Char} (p : Split a) (q : Split b)
    (h : (p.coefficient : ℚ) / 10 ^ p.fraction.length = q.coefficient / 10 ^ q.fraction.length) :
    a = b := by
  have hcross : p.coefficient * 10 ^ q.fraction.length = q.coefficient * 10 ^ p.fraction.length := by
    rw [div_eq_div_iff (by positivity) (by positivity)] at h
    exact_mod_cast h
  have hlength : p.fraction.length = q.fraction.length :=
    le_antisymm (q.fraction_le p hcross.symm) (p.fraction_le q hcross)
  refine p.text_eq_of_coefficient q hlength ?_
  rw [hlength] at hcross
  exact Nat.eq_of_mul_eq_mul_right (by positivity) hcross

theorem canonicalDecimal_decimalOfText {s : String} (h : matchesDecimalPattern s = true) :
    canonicalDecimal (decimalOfText s) = s := by
  obtain ⟨split⟩ := exists_split_of_matches h
  obtain ⟨text, htext, other, hvalue⟩ := canonicalDecimal_split (decimalOfText s)
  have hread := split.read
  rw [String.ofList_toList, ← decimalOfText_value, ← hvalue] at hread
  rw [htext, other.text_unique split hread, String.ofList_toList]

theorem decimalOf_of_matches {s : String} (h : matchesDecimalPattern s = true) :
    decimalOf (.str s) = .ok (decimalOfText s) := by
  simp only [decimalOf, h, canonicalDecimal_decimalOfText h, beq_self_eq_true, require_true]
  rfl

/-- Canonical texts are the pattern's texts and correspond to the amounts, and the
decoder inverts them both ways. -/
theorem canonical_decimals_are_amounts :
    (∀ d, readDecimal (canonicalDecimal d) = d.value) ∧
    (∀ d e, canonicalDecimal d = canonicalDecimal e ↔ d.value = e.value) ∧
    (∀ s, matchesDecimalPattern s = true ↔ ∃ d, canonicalDecimal d = s) ∧
    (∀ d, ∃ e, decimalOf (.str (canonicalDecimal d)) = .ok e ∧ e.value = d.value) ∧
    (∀ s, matchesDecimalPattern s = true ↔ ∃ d, decimalOf (.str s) = .ok d ∧ canonicalDecimal d = s) := by
  refine ⟨readDecimal_canonicalDecimal, canonicalDecimal_eq_iff, fun s => ⟨fun h => ?_, ?_⟩,
    fun d => ?_, fun s => ⟨fun h => ?_, ?_⟩⟩
  · exact ⟨decimalOfText s, canonicalDecimal_decimalOfText h⟩
  · rintro ⟨d, rfl⟩
    exact canonicalDecimal_matches d
  · refine ⟨_, decimalOf_canonical d, ?_⟩
    rw [decimalOfText_value, readDecimal_canonicalDecimal]
  · exact ⟨decimalOfText s, decimalOf_of_matches h, canonicalDecimal_decimalOfText h⟩
  · rintro ⟨d, -, rfl⟩
    exact canonicalDecimal_matches d

end Zhiyi
