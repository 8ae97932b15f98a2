import Zhiyi.Library.Digits
import Zhiyi.Postgres.CanonicalInteger

set_option autoImplicit false

/-! The loops of the canonical integer codec with every conversion between an
integer and its text that they make. -/
namespace Zhiyi
open Python

/-- One call of `str`, of a format specification or of `int`. -/
inductive Conversion where
  | toText (chunk : ℕ)
  | toInteger (text : List Char)
  deriving DecidableEq

/-- The digits that the interpreter counts against its limit. -/
def Conversion.digits : Conversion → ℕ
  | .toText chunk => (Nat.toDigits 10 chunk).length
  | .toInteger text => text.length

/-- `while remaining`. -/
def peelChunks (remaining : ℕ) (chunks : List ℕ) : List ℕ :=
  if remaining = 0 then chunks
  else peelChunks (remaining / integerBase) (chunks ++ [remaining % integerBase])
termination_by remaining
decreasing_by exact Nat.div_lt_self (Nat.pos_of_ne_zero ‹_›) (by decide)

/-- `encode_canonical_integer`: its text and its conversions. -/
def encodeConversions (value : ℤ) : String × List Conversion :=
  if value = 0 then ("0", [])
  else
    match (peelChunks value.natAbs []).reverse with
    | [] => ("", [])
    | head :: body =>
      (String.ofList ((if value < 0 then ['-'] else []) ++
        (Nat.toDigits 10 head ++ body.flatMap (DateTime.padded chunkDigits))),
        (head :: body).map .toText)

theorem peelChunks_eq (remaining : ℕ) (chunks : List ℕ) :
    peelChunks remaining chunks = chunks ++ Nat.digits integerBase remaining := by
  fun_induction peelChunks remaining chunks with
  | case1 chunks => simp
  | case2 remaining chunks h ih =>
    rw [ih, Nat.digits_def' (by decide) (Nat.pos_of_ne_zero h), List.append_assoc,
      List.singleton_append]

theorem mem_peelChunks {value chunk : ℕ} (h : chunk ∈ peelChunks value []) : chunk < integerBase := by
  rw [peelChunks_eq, List.nil_append] at h
  exact Nat.digits_lt_base (by decide) h

theorem encodeConversions_text (value : ℤ) :
    (encodeConversions value).1 = encodeCanonicalInteger value := by
  unfold encodeConversions encodeCanonicalInteger encodeChunks
  rw [peelChunks_eq, List.nil_append]
  by_cases hzero : value = 0
  · rw [if_pos hzero, if_pos hzero]
  · rw [if_neg hzero, if_neg hzero]
    have hne : Nat.digits integerBase value.natAbs ≠ [] :=
      Nat.digits_ne_nil_iff_ne_zero.mpr (Int.natAbs_ne_zero.mpr hzero)
    cases hrev : (Nat.digits integerBase value.natAbs).reverse with
    | nil => exact absurd (List.reverse_eq_nil_iff.mp hrev) hne
    | cons head body => rfl

theorem encodeConversions_digits {value : ℤ} :
    ∀ c ∈ (encodeConversions value).2, c.digits ≤ chunkDigits := by
  intro c hc
  unfold encodeConversions at hc
  split at hc
  · cases hc
  · cases hrev : (peelChunks value.natAbs []).reverse with
    | nil =>
      rw [hrev] at hc
      cases hc
    | cons head body =>
      rw [hrev] at hc
      obtain ⟨chunk, hchunk, rfl⟩ := List.mem_map.mp hc
      rw [← hrev] at hchunk
      have hlt : chunk < 10 ^ chunkDigits := mem_peelChunks (List.mem_reverse.mp hchunk)
      exact (Nat.length_toDigits_le_iff (by norm_num) (by decide)).mpr hlt

/-- `range(start, stop, step)`. -/
def rangeStep (start stop step : ℕ) : List ℕ :=
  (List.range ((stop - start + (step - 1)) / step)).map fun k => start + step * k

def chunkPositions (length : ℕ) : List ℕ :=
  let firstSize := if length % chunkDigits = 0 then chunkDigits else length % chunkDigits
  firstSize :: rangeStep (firstSize + chunkDigits) (length + 1) chunkDigits

structure DecodeLoop where
  start : ℕ
  result : ℕ
  conversions : List Conversion

def decodeStep (digits : List Char) (s : DecodeLoop) (stop : ℕ) : DecodeLoop :=
  let text := (digits.drop s.start).take (stop - s.start)
  { start := stop
    result := s.result * 10 ^ (stop - s.start) + Nat.ofDigitChars 10 text 0
    conversions := s.conversions ++ [.toInteger text] }

def decodeLoop (digits : List Char) : DecodeLoop :=
  (chunkPositions digits.length).foldl (decodeStep digits) ⟨0, 0, []⟩

/-- `decode_canonical_integer`: its result and its conversions. -/
def decodeConversions (cs : List Char) : Except PyError (ℤ × List Conversion) :=
  if matchesIntegerPattern cs then
    match cs with
    | '-' :: digits => .ok (-((decodeLoop digits).result : ℤ), (decodeLoop digits).conversions)
    | digits => .ok ((decodeLoop digits).result, (decodeLoop digits).conversions)
  else .error (.valueError "integer token is not canonical")

/-- What the loop has read: the text up to here, in short conversions. -/
structure HasRead (digits : List Char) (s : DecodeLoop) (stop : ℕ) : Prop where
  start : s.start = stop
  result : s.result = Nat.ofDigitChars 10 (digits.take stop) 0
  short : ∀ c ∈ s.conversions, c.digits ≤ chunkDigits

theorem HasRead.step {digits : List Char} {s : DecodeLoop} {start stop : ℕ}
    (h : HasRead digits s start) (hle : start ≤ stop) (hshort : stop ≤ start + chunkDigits)
    (hlength : stop ≤ digits.length) : HasRead digits (decodeStep digits s stop) stop := by
  obtain ⟨rfl, hresult, hconversions⟩ := h
  have hsize : ((digits.drop s.start).take (stop - s.start)).length = stop - s.start := by
    rw [List.length_take, List.length_drop]
    omega
  refine ⟨rfl, ?_, ?_⟩
  · have htake : digits.take stop = digits.take s.start ++ (digits.drop s.start).take (stop - s.start) := by
      rw [← List.take_add, Nat.add_sub_cancel' hle]
    have happend := Digits.value_append (digits.take s.start) ((digits.drop s.start).take (stop - s.start))
    rw [← htake, hsize] at happend
    simp only [decodeStep, hresult]
    exact happend.symm
  · intro c hc
    rcases List.mem_append.mp hc with hc | hc
    · exact hconversions c hc
    · rw [List.mem_singleton.mp hc]
      simp only [Conversion.digits, hsize]
      omega

theorem HasRead.steps {digits : List Char} {s : DecodeLoop} {first : ℕ} (h : HasRead digits s first)
    (count : ℕ) (hlength : first + chunkDigits * count ≤ digits.length) :
    HasRead digits (((List.range count).map fun k => first + chunkDigits + chunkDigits * k).foldl
      (decodeStep digits) s) (first + chunkDigits * count) := by
  induction count with
  | zero => exact h
  | succ count ih =>
    rw [Nat.mul_succ] at hlength ⊢
    rw [List.range_succ, List.map_append, List.foldl_append]
    have hstep : HasRead digits _ (first + (chunkDigits * count + chunkDigits)) :=
      (ih (by omega)).step (by omega) (by omega) hlength
    have hend : first + chunkDigits + chunkDigits * count = first + (chunkDigits * count + chunkDigits) := by
      omega
    simpa only [List.map_cons, List.map_nil, List.foldl_cons, List.foldl_nil, hend] using hstep

theorem decodeLoop_hasRead {digits : List Char} (hne : digits ≠ []) :
    HasRead digits (decodeLoop digits) digits.length := by
  have hpos : 0 < digits.length := List.length_pos_iff.mpr hne
  unfold decodeLoop chunkPositions rangeStep
  simp only [List.foldl_cons]
  generalize hfirst :
    (if digits.length % chunkDigits = 0 then chunkDigits else digits.length % chunkDigits) = first
  have hnine : chunkDigits = 9 := rfl
  have hbounds : first ≤ digits.length ∧ first ≤ chunkDigits ∧ (digits.length - first) % 9 = 0 := by
    rw [hnine] at hfirst ⊢
    split_ifs at hfirst <;> omega
  have hcount : (digits.length + 1 - (first + chunkDigits) + (chunkDigits - 1)) / chunkDigits =
      (digits.length - first) / 9 := by
    rw [hnine]
    omega
  have hend : first + chunkDigits * ((digits.length - first) / 9) = digits.length := by
    rw [hnine]
    omega
  have hstart : HasRead digits (decodeStep digits ⟨0, 0, []⟩ first) first :=
    HasRead.step ⟨rfl, rfl, by simp⟩ (Nat.zero_le _) (by omega) hbounds.1
  have hsteps := hstart.steps ((digits.length - first) / 9) hend.le
  rw [hend] at hsteps
  rw [hcount]
  exact hsteps

theorem decodeLoop_result {digits : List Char} (hne : digits ≠ []) :
    (decodeLoop digits).result = decodeDigits digits := by
  have hread := (decodeLoop_hasRead hne).result
  rw [List.take_length] at hread
  unfold decodeDigits
  rw [hread, decodeChunks_eq _ _ _ _ ?_ le_rfl]
  split_ifs with h
  · decide
  · omega

theorem matchesPositive_digits {cs : List Char} (h : matchesPositive cs = true) :
    Digits.AllDigits cs ∧ ∃ c rest, cs = c :: rest ∧ c ≠ '0' := by
  cases cs with
  | nil => cases h
  | cons c rest =>
    simp only [matchesPositive, Bool.and_eq_true, bne_iff_ne, ne_eq, List.all_eq_true] at h
    obtain ⟨⟨hdigit, hzero⟩, hrest⟩ := h
    exact ⟨List.forall_mem_cons.mpr ⟨hdigit, hrest⟩, c, rest, rfl, hzero⟩

theorem matchesIntegerPattern_cases {cs : List Char} (h : matchesIntegerPattern cs = true) :
    cs = ['0'] ∨ (∃ digits, cs = '-' :: digits ∧ matchesPositive digits = true) ∨
      matchesPositive cs = true := by
  unfold matchesIntegerPattern at h
  split at h
  · exact .inl rfl
  · next digits => exact .inr (.inl ⟨digits, rfl, h⟩)
  · exact .inr (.inr h)

theorem toDigits_decodeDigits {cs : List Char} (h : matchesPositive cs = true) :
    Nat.toDigits 10 (decodeDigits cs) = cs ∧ decodeDigits cs ≠ 0 := by
  obtain ⟨hdigits, c, rest, rfl, hzero⟩ := matchesPositive_digits h
  have hvalue : decodeDigits (c :: rest) = Digits.value (c :: rest) := by
    unfold decodeDigits
    rw [decodeChunks_eq _ _ _ _ ?_ le_rfl]
    · rfl
    · split_ifs with hmod
      · decide
      · omega
  have hpos : 0 < Digits.value (c :: rest) :=
    lt_of_lt_of_le (by positivity) (Digits.pow_le_value rest (hdigits c List.mem_cons_self) hzero)
  rw [hvalue]
  obtain ⟨d, tail, hd, hne⟩ := toDigits_head_ne_zero _ hpos.ne'
  refine ⟨Digits.eq_of_leading (Digits.allDigits_toDigits _) hdigits (.inr ⟨d, tail, hd, hne⟩)
    (.inr ⟨c, rest, rfl, hzero⟩) ?_, hpos.ne'⟩
  exact Nat.ofDigitChars_ten_toDigits

theorem encode_decodeCanonicalInteger {cs : List Char} (h : matchesIntegerPattern cs = true) :
    ∃ n, decodeCanonicalInteger cs = .ok n ∧ (encodeCanonicalInteger n).toList = cs := by
  simp only [encodeCanonicalInteger_eq, String.toList_ofList]
  rcases matchesIntegerPattern_cases h with rfl | ⟨digits, rfl, hpositive⟩ | hpositive
  · exact ⟨0, by decide, by decide⟩
  · obtain ⟨htext, hne⟩ := toDigits_decodeDigits hpositive
    refine ⟨-(decodeDigits digits : ℤ), if_pos h, ?_⟩
    unfold Json.printInt
    rw [if_pos (by omega), Int.natAbs_neg, Int.natAbs_natCast, htext]
  · obtain ⟨htext, -⟩ := toDigits_decodeDigits hpositive
    refine ⟨decodeDigits cs, ?_, ?_⟩
    · unfold decodeCanonicalInteger
      rw [if_pos h]
      split
      · cases hpositive
      · rfl
    · unfold Json.printInt
      rw [if_neg (by omega), Int.natAbs_natCast, htext]

theorem decodeConversions_result (cs : List Char) :
    (decodeConversions cs).map Prod.fst = decodeCanonicalInteger cs := by
  unfold decodeConversions decodeCanonicalInteger
  by_cases hmatch : matchesIntegerPattern cs = true
  · have hne : ∀ digits, cs = digits ∨ cs = '-' :: digits → digits ≠ [] := by
      rintro digits hcs rfl
      rcases hcs with rfl | rfl <;> revert hmatch <;> decide
    rw [if_pos hmatch, if_pos hmatch]
    split
    · next digits => simp only [Except.map, decodeLoop_result (hne digits (.inr rfl))]
    · simp only [Except.map, decodeLoop_result (hne _ (.inl rfl))]
  · rw [if_neg hmatch, if_neg hmatch]
    rfl

theorem decodeConversions_digits {cs : List Char} {n : ℤ} {conversions : List Conversion}
    (h : decodeConversions cs = .ok (n, conversions)) : ∀ c ∈ conversions, c.digits ≤ chunkDigits := by
  have hshort : ∀ digits, ∀ c ∈ (decodeLoop digits).conversions, c.digits ≤ chunkDigits := by
    intro digits
    by_cases hne : digits = []
    · subst hne
      decide
    · exact (decodeLoop_hasRead hne).short
  unfold decodeConversions at h
  split_ifs at h
  split at h
  · cases h
    exact hshort _
  · cases h
    exact hshort _

theorem encodeCanonicalInteger_injective : Function.Injective encodeCanonicalInteger := by
  intro m n h
  have hm := decodeCanonicalInteger_printInt m
  rw [encodeCanonicalInteger_eq, encodeCanonicalInteger_eq] at h
  rw [String.ofList_injective h, decodeCanonicalInteger_printInt n] at hm
  exact (Except.ok.inj hm).symm

/-- The codec is a bijection between the integers and the canonical texts, and its loops
    convert at most nine digits at a time. -/
theorem canonicalInteger_codec :
    (∀ n : ℤ, decodeCanonicalInteger (encodeCanonicalInteger n).toList = .ok n) ∧
    (∀ cs, matchesIntegerPattern cs = true →
      ∃ n, decodeCanonicalInteger cs = .ok n ∧ (encodeCanonicalInteger n).toList = cs) ∧
    (∀ cs, matchesIntegerPattern cs = false →
      decodeCanonicalInteger cs = .error (.valueError "integer token is not canonical")) ∧
    Function.Injective encodeCanonicalInteger ∧
    (∀ n, (encodeConversions n).1 = encodeCanonicalInteger n ∧
      ∀ c ∈ (encodeConversions n).2, c.digits ≤ 9) ∧
    (∀ cs, (decodeConversions cs).map Prod.fst = decodeCanonicalInteger cs ∧
      ∀ n conversions, decodeConversions cs = .ok (n, conversions) → ∀ c ∈ conversions, c.digits ≤ 9) := by
  refine ⟨fun n => ?_, fun cs => encode_decodeCanonicalInteger, fun cs h => ?_,
    encodeCanonicalInteger_injective, fun n => ⟨encodeConversions_text n, encodeConversions_digits⟩,
    fun cs => ⟨decodeConversions_result cs, fun n conversions => decodeConversions_digits⟩⟩
  · rw [encodeCanonicalInteger_eq, String.toList_ofList, decodeCanonicalInteger_printInt]
  · unfold decodeCanonicalInteger
    rw [h]
    rfl

end Zhiyi
