import Mathlib.Tactic.Linarith
import Zhiyi.Library.DateTime
import Zhiyi.Library.Digits

set_option autoImplicit false

/-! `datetime.fromisoformat` on the extended form, and that it reads the ISO text of
every datetime back. -/
namespace Python
namespace DateTime

/-- `width` decimal digits at the front of the text. -/
def readDigits (width : ℕ) (cs : List Char) : Option (ℕ × List Char) :=
  if (cs.take width).length = width ∧ (cs.take width).all Char.isDigit = true then
    some (Nat.ofDigitChars 10 (cs.take width) 0, cs.drop width)
  else none

def readMark (mark : Char) : List Char → Option (List Char)
  | c :: cs => if c = mark then some cs else none
  | [] => none

/-- `YYYY-MM-DD`: the ordinal of the day. -/
def readDate (cs : List Char) : Option (ℕ × List Char) := do
  let (year, cs) ← readDigits 4 cs
  let cs ← readMark '-' cs
  let (month, cs) ← readDigits 2 cs
  let cs ← readMark '-' cs
  let (day, cs) ← readDigits 2 cs
  if 1 ≤ year ∧ 1 ≤ month ∧ month ≤ 12 ∧ 1 ≤ day ∧ day ≤ daysInMonth year month then
    return (ymdToOrdinal year month day, cs)
  else none

/-- The microseconds of a fraction, of which six digits count. -/
def readFraction : List Char → Option (ℕ × List Char)
  | '.' :: cs =>
    let digits := (cs.takeWhile Char.isDigit).take 6
    if digits = [] then none
    else some (Nat.ofDigitChars 10 digits 0 * 10 ^ (6 - digits.length), cs.dropWhile Char.isDigit)
  | cs => some (0, cs)

/-- `HH:MM:SS` with an optional fraction, as microseconds. -/
def readTime (cs : List Char) : Option (ℕ × List Char) := do
  let (hour, cs) ← readDigits 2 cs
  let cs ← readMark ':' cs
  let (minute, cs) ← readDigits 2 cs
  let cs ← readMark ':' cs
  let (second, cs) ← readDigits 2 cs
  let (fraction, cs) ← readFraction cs
  if hour < 24 ∧ minute < 60 ∧ second < 60 then
    return (((hour * 60 + minute) * 60 + second) * 1000000 + fraction, cs)
  else none

/-- The offset from UTC in microseconds, or none for a naive datetime. -/
def readOffset : List Char → Option (Option ℤ)
  | [] => some none
  | ['Z'] => some (some 0)
  | sign :: cs => do
    let (hour, cs) ← readDigits 2 cs
    let cs ← readMark ':' cs
    let (minute, cs) ← readDigits 2 cs
    let offset : ℤ := (hour * 60 + minute) * 60000000
    if hour < 24 ∧ minute < 60 ∧ cs = [] then
      if sign = '+' then return some offset else if sign = '-' then return some (-offset) else none
    else none

/-- `datetime.fromisoformat`: the local time and the offset of an aware datetime. -/
def fromisoformat (s : String) : Except PyError (DateTime × Option ℤ) :=
  let parsed : Option (ℕ × Option ℤ) := do
    let (ordinal, cs) ← readDate s.toList
    let cs ← readMark 'T' cs
    let (micros, cs) ← readTime cs
    let offset ← readOffset cs
    return ((ordinal - 1) * 86400000000 + micros, offset)
  match parsed with
  | none => .error (.valueError "Invalid isoformat string")
  | some (total, offset) => do
    let date ← ofMicros (minMicros + total) (.valueError "year is out of range")
    return (date, offset)

theorem daysBeforeYear_parts (a b c d : ℕ) (hb : b ≤ 3) (hc : c ≤ 24) (hd : d ≤ 3) :
    daysBeforeYear (a * 400 + 1 + b * 100 + c * 4 + d) = a * 146097 + b * 36524 + c * 1461 + d * 365 := by
  unfold daysBeforeYear
  have h4 : (a * 400 + 1 + b * 100 + c * 4 + d - 1) / 4 = a * 100 + b * 25 + c := by omega
  have h100 : (a * 400 + 1 + b * 100 + c * 4 + d - 1) / 100 = a * 4 + b := by omega
  have h400 : (a * 400 + 1 + b * 100 + c * 4 + d - 1) / 400 = a := by omega
  simp only [h4, h100, h400]
  omega

theorem isLeap_parts (a b c d : ℕ) (hb : b ≤ 3) (hc : c ≤ 24) (hd : d ≤ 3) :
    isLeap (a * 400 + 1 + b * 100 + c * 4 + d) = (d == 3 && (c != 24 || b == 3)) := by
  have h4 : (a * 400 + 1 + b * 100 + c * 4 + d) % 4 = 0 ↔ d = 3 := by omega
  have h100 : (a * 400 + 1 + b * 100 + c * 4 + d) % 100 = 0 ↔ d = 3 ∧ c = 24 := by omega
  have h400 : (a * 400 + 1 + b * 100 + c * 4 + d) % 400 = 0 ↔ d = 3 ∧ c = 24 ∧ b = 3 := by omega
  rw [Bool.eq_iff_iff]
  simp only [isLeap, Bool.and_eq_true, Bool.or_eq_true, beq_iff_eq, bne_iff_ne, ne_eq, h4, h100, h400]
  tauto

def beforeMonth (leap : Bool) (month : ℕ) : ℕ :=
  cumulativeDays.getD month 0 + (if 2 < month && leap then 1 else 0)

def monthLength (leap : Bool) (month : ℕ) : ℕ :=
  if month == 2 && leap then 29
  else [0, 31, 28, 31, 30, 31, 30, 31, 31, 30, 31, 30, 31].getD month 0

/-- The month and day of `_ord2ymd` from the day of the year, counted from zero. -/
def monthDay (leap : Bool) (n : ℕ) : ℕ × ℕ :=
  let month := (n + 50) / 32
  let preceding := beforeMonth leap month
  if n < preceding then (month - 1, n - (preceding - monthLength leap (month - 1)) + 1)
  else (month, n - preceding + 1)

theorem monthDay_spec : ∀ leap : Bool, ∀ n < 366, (n < 365 ∨ leap = true) →
    1 ≤ (monthDay leap n).1 ∧ (monthDay leap n).1 ≤ 12 ∧ 1 ≤ (monthDay leap n).2 ∧
      (monthDay leap n).2 ≤ monthLength leap (monthDay leap n).1 ∧
      beforeMonth leap (monthDay leap n).1 + (monthDay leap n).2 = n + 1 := by
  decide +kernel

/-- The parts of the date with this ordinal. -/
structure Calendar (ordinal year month day : ℕ) : Prop where
  yearRange : 1 ≤ year ∧ year ≤ 9999
  monthRange : 1 ≤ month ∧ month ≤ 12
  dayRange : 1 ≤ day ∧ day ≤ daysInMonth year month
  toOrdinal : ymdToOrdinal year month day = ordinal

/-- The `n`th day of a year, counted from zero. -/
theorem calendar_of_day {year before n : ℕ} (hyear : 1 ≤ year ∧ year ≤ 9999)
    (hbefore : daysBeforeYear year = before) (hn : n < 366) (hleap : n < 365 ∨ isLeap year = true) :
    Calendar (before + n + 1) year (monthDay (isLeap year) n).1 (monthDay (isLeap year) n).2 := by
  obtain ⟨hfirst, hlast, hday, hlength, hordinal⟩ := monthDay_spec (isLeap year) n hn hleap
  refine ⟨hyear, ⟨hfirst, hlast⟩, ⟨hday, hlength⟩, ?_⟩
  have hmonth : daysBeforeMonth year (monthDay (isLeap year) n).1 =
      beforeMonth (isLeap year) (monthDay (isLeap year) n).1 := rfl
  unfold ymdToOrdinal
  rw [hbefore, hmonth]
  omega

structure Cycles (n a b c d r : ℕ) : Prop where
  split : n = a * 146097 + b * 36524 + c * 1461 + d * 365 + r
  fourYears : c ≤ 24
  day : r < 365
  fifthYear : d ≤ 3 ∨ d = 4 ∧ r = 0 ∧ b ≤ 3 ∧ (c ≠ 24 ∨ b = 3)
  fifthCentury : b ≤ 3 ∨ b = 4 ∧ c = 0 ∧ d = 0 ∧ r = 0

theorem cycles_of_day (n : ℕ) :
    Cycles n (n / 146097) (n % 146097 / 36524) (n % 146097 % 36524 / 1461)
      (n % 146097 % 36524 % 1461 / 365) (n % 146097 % 36524 % 1461 % 365) := by
  constructor <;> omega

theorem Cycles.lastDay {n a b c d r : ℕ} (h : Cycles n a b c d r) (hlast : d = 4 ∨ b = 4) :
    ∃ b' c', b' ≤ 3 ∧ c' ≤ 24 ∧ (c' ≠ 24 ∨ b' = 3) ∧
      a * 400 + 1 + b * 100 + c * 4 + d - 1 = a * 400 + 1 + b' * 100 + c' * 4 + 3 ∧
      n = a * 146097 + b' * 36524 + c' * 1461 + 3 * 365 + 365 := by
  obtain ⟨hsplit, hc, -, hfifthYear, hfifthCentury⟩ := h
  rcases hlast with hd | hb
  · obtain ⟨-, hr, hb3, hleap⟩ := hfifthYear.resolve_left (by omega)
    exact ⟨b, c, hb3, hc, hleap, by omega, by rw [hd] at hsplit; linarith⟩
  · obtain ⟨-, hc0, hd0, hr0⟩ := hfifthCentury.resolve_left (by omega)
    exact ⟨3, 24, le_rfl, le_rfl, .inr rfl, by omega, by rw [hb] at hsplit; linarith⟩

theorem ordinalToYmd_calendar {ordinal : ℕ} (h : 1 ≤ ordinal) (hmax : ordinal ≤ 3652059) :
    Calendar ordinal (ordinalToYmd ordinal).1 (ordinalToYmd ordinal).2.1 (ordinalToYmd ordinal).2.2 := by
  obtain ⟨n, rfl⟩ : ∃ n, ordinal = n + 1 := ⟨ordinal - 1, by omega⟩
  have hcycles := cycles_of_day n
  unfold ordinalToYmd
  simp only [Nat.add_sub_cancel]
  generalize n / 146097 = a at hcycles ⊢
  generalize n % 146097 / 36524 = b at hcycles ⊢
  generalize n % 146097 % 36524 / 1461 = c at hcycles ⊢
  generalize n % 146097 % 36524 % 1461 / 365 = d at hcycles ⊢
  generalize n % 146097 % 36524 % 1461 % 365 = r at hcycles ⊢
  have hsplit := hcycles.split
  have hr' := hcycles.day
  have hc' := hcycles.fourYears
  have hfifthYear := hcycles.fifthYear
  have hfifthCentury := hcycles.fifthCentury
  by_cases hlast : d = 4 ∨ b = 4
  · have hif : (d == 4 || b == 4) = true := by simpa using hlast
    obtain ⟨b', c', hb', hc', hleap, hyear, hn⟩ := hcycles.lastDay hlast
    have hisLeap : isLeap (a * 400 + 1 + b' * 100 + c' * 4 + 3) = true := by
      rw [isLeap_parts a b' c' 3 hb' hc' le_rfl]
      simpa using hleap
    have hcalendar := calendar_of_day ⟨by omega, by omega⟩
      (daysBeforeYear_parts a b' c' 3 hb' hc' le_rfl) (n := 365) (by omega) (.inr hisLeap)
    have hday : monthDay true 365 = (12, 31) := by decide
    rw [hisLeap, hday, ← hn] at hcalendar
    simp only [hif, if_true, hyear]
    exact hcalendar
  · have hif : (d == 4 || b == 4) = false := by simpa using hlast
    have hcalendar := calendar_of_day ⟨by omega, by omega⟩
      (daysBeforeYear_parts a b c d (by omega) hc' (by omega)) (n := r) (by omega) (.inl hr')
    simp only [hif, Bool.false_eq_true, if_false]
    rw [isLeap_parts a b c d (by omega) hc' (by omega), ← hsplit] at hcalendar
    generalize hleap : (d == 3 && (c != 24 || b == 3)) = leap at hcalendar ⊢
    generalize hyear : a * 400 + 1 + b * 100 + c * 4 + d = year at hcalendar ⊢
    have hyearLeap : isLeap year = leap := by
      rw [← hyear, isLeap_parts a b c d (by omega) hc' (by omega), hleap]
    have hparts : ∀ p : ℕ × ℕ × ℕ, p = (year, monthDay leap r) →
        Calendar (n + 1) p.1 p.2.1 p.2.2 := by
      rintro p rfl
      exact hcalendar
    apply hparts
    unfold monthDay beforeMonth monthLength daysInMonth
    rw [hyearLeap]
    simp only
    split_ifs <;> rfl

theorem padded_length {width n : ℕ} (hw : 0 < width) (h : n < 10 ^ width) :
    (padded width n).length = width := by
  have hle := (Nat.length_toDigits_le_iff (by norm_num : 1 < 10) hw).mpr h
  simp only [padded, List.length_append, List.length_replicate]
  omega

theorem isDigit_of_mem_padded {width n : ℕ} : ∀ c ∈ padded width n, c.isDigit = true := by
  intro c hc
  rcases List.mem_append.mp hc with hc | hc
  · rw [List.eq_of_mem_replicate hc]
    rfl
  · exact Digits.allDigits_toDigits n c hc

theorem ofDigitChars_padded (width n : ℕ) : Nat.ofDigitChars 10 (padded width n) 0 = n := by
  unfold padded
  rw [Nat.ofDigitChars_append, Nat.ofDigitChars_replicate_zero, Nat.mul_zero,
    Nat.ofDigitChars_ten_toDigits]

theorem readDigits_padded {width n : ℕ} (hw : 0 < width) (h : n < 10 ^ width) (t : List Char) :
    readDigits width (padded width n ++ t) = some (n, t) := by
  have hlength := padded_length hw h
  have htake : (padded width n ++ t).take width = padded width n := List.take_left' hlength
  have hdrop : (padded width n ++ t).drop width = t := List.drop_left' hlength
  unfold readDigits
  rw [htake, hdrop, ofDigitChars_padded]
  exact if_pos ⟨hlength, List.all_eq_true.mpr isDigit_of_mem_padded⟩

def sinceMin (d : DateTime) : ℕ := (d.micros - minMicros).toNat

def isoSeconds (d : DateTime) : List Char :=
  let (year, month, day) := ordinalToYmd (d.sinceMin / 86400000000 + 1)
  let seconds := d.sinceMin % 86400000000 / 1000000
  padded 4 year ++ '-' :: padded 2 month ++ '-' :: padded 2 day ++
    'T' :: padded 2 (seconds / 3600) ++ ':' :: padded 2 (seconds / 60 % 60) ++
    ':' :: padded 2 (seconds % 60)

def fraction (d : DateTime) : ℕ := d.sinceMin % 86400000000 % 1000000

theorem isoformat_eq (d : DateTime) : d.isoformat = String.ofList (d.isoSeconds ++
    (if d.fraction = 0 then [] else '.' :: padded 6 d.fraction) ++ "+00:00".toList) := rfl

theorem sinceMin_lt (d : DateTime) : d.sinceMin < 3652059 * 86400000000 := by
  obtain ⟨t, hmin, hmax⟩ := d
  simp only [sinceMin, micros, minMicros, maxMicros] at hmin hmax ⊢
  omega

theorem ofMicros_sinceMin (d : DateTime) (error : PyError) :
    ofMicros (minMicros + d.sinceMin) error = .ok d := by
  have hsum : minMicros + (d.sinceMin : ℤ) = d.micros := by
    have hmin := d.property.1
    simp only [sinceMin, micros] at hmin ⊢
    omega
  rw [hsum]
  exact dif_pos d.property

theorem daysInMonth_le (year : ℕ) {month : ℕ} (h : month ≤ 12) : daysInMonth year month ≤ 31 := by
  have htable : ∀ m < 13, [0, 31, 28, 31, 30, 31, 30, 31, 31, 30, 31, 30, 31].getD m 0 ≤ 31 := by
    decide
  unfold daysInMonth
  split_ifs
  · norm_num
  · exact htable month (by omega)

theorem readDate_isoSeconds (d : DateTime) (t : List Char) :
    ∃ rest, d.isoSeconds ++ t = rest ∧ readDate rest = some (d.sinceMin / 86400000000 + 1,
      'T' :: padded 2 (d.sinceMin % 86400000000 / 1000000 / 3600) ++
        ':' :: padded 2 (d.sinceMin % 86400000000 / 1000000 / 60 % 60) ++
        ':' :: padded 2 (d.sinceMin % 86400000000 / 1000000 % 60) ++ t) := by
  refine ⟨_, rfl, ?_⟩
  have hlt := d.sinceMin_lt
  have hcalendar := ordinalToYmd_calendar (show 1 ≤ d.sinceMin / 86400000000 + 1 by omega) (by omega)
  unfold isoSeconds
  generalize ordinalToYmd (d.sinceMin / 86400000000 + 1) = date at hcalendar ⊢
  obtain ⟨year, month, day⟩ := date
  obtain ⟨hyear, hmonth, hday, hordinal⟩ := hcalendar
  simp only at hyear hmonth hday hordinal
  have hdays := daysInMonth_le year hmonth.2
  unfold readDate
  simp only [List.append_assoc, List.cons_append]
  rw [readDigits_padded (by norm_num) (by omega)]
  simp only [Option.bind_eq_bind, Option.bind_some, readMark, if_true]
  rw [readDigits_padded (by norm_num) (by omega)]
  simp only [Option.bind_some, if_true]
  rw [readDigits_padded (by norm_num) (by omega)]
  simp only [Option.bind_some]
  rw [if_pos ⟨hyear.1, hmonth.1, hmonth.2, hday⟩, hordinal]
  rfl

theorem readTime_isoSeconds (d : DateTime) {fractionText t : List Char}
    (hfraction : readFraction (fractionText ++ t) = some (d.fraction, t)) :
    readTime (padded 2 (d.sinceMin % 86400000000 / 1000000 / 3600) ++
        ':' :: padded 2 (d.sinceMin % 86400000000 / 1000000 / 60 % 60) ++
        ':' :: padded 2 (d.sinceMin % 86400000000 / 1000000 % 60) ++ (fractionText ++ t)) =
      some (d.sinceMin % 86400000000, t) := by
  unfold readTime
  simp only [List.append_assoc, List.cons_append]
  rw [readDigits_padded (by norm_num) (by omega)]
  simp only [Option.bind_eq_bind, Option.bind_some, readMark, if_true]
  rw [readDigits_padded (by norm_num) (by omega)]
  simp only [Option.bind_some, if_true]
  rw [readDigits_padded (by norm_num) (by omega)]
  simp only [Option.bind_some, hfraction]
  rw [if_pos ⟨by omega, by omega, by omega⟩]
  simp only [fraction, pure, Option.some.injEq, Prod.mk.injEq, and_true]
  omega

theorem fromisoformat_isoSeconds (d : DateTime) {fractionText : List Char}
    (hfraction : readFraction (fractionText ++ "+00:00".toList) = some (d.fraction, "+00:00".toList)) :
    fromisoformat (String.ofList (d.isoSeconds ++ fractionText ++ "+00:00".toList)) =
      .ok (d, some 0) := by
  obtain ⟨rest, hrest, hdate⟩ := d.readDate_isoSeconds (fractionText ++ "+00:00".toList)
  rw [List.append_assoc, hrest]
  unfold fromisoformat
  simp only [String.toList_ofList, hdate, Option.bind_eq_bind, Option.bind_some, List.cons_append,
    readMark, if_true, List.append_assoc]
  have htime := d.readTime_isoSeconds hfraction
  simp only [List.cons_append, List.append_assoc] at htime
  rw [htime]
  have hoffset : readOffset "+00:00".toList = some (some 0) := by decide
  simp only [Option.bind_some, hoffset, pure, Nat.add_sub_cancel]
  have htotal : d.sinceMin / 86400000000 * 86400000000 + d.sinceMin % 86400000000 = d.sinceMin :=
    Nat.div_add_mod' _ _
  rw [htotal, ofMicros_sinceMin]
  rfl

theorem readFraction_digits {digits : List Char} (hdigits : ∀ c ∈ digits, c.isDigit = true)
    (hne : digits ≠ []) (hlength : digits.length ≤ 6) :
    readFraction ('.' :: digits ++ "+00:00".toList) =
      some (Nat.ofDigitChars 10 digits 0 * 10 ^ (6 - digits.length), "+00:00".toList) := by
  have htake : (digits ++ "+00:00".toList).takeWhile Char.isDigit = digits := by
    rw [List.takeWhile_append_of_pos hdigits]
    exact List.append_nil digits
  have hdrop : (digits ++ "+00:00".toList).dropWhile Char.isDigit = "+00:00".toList := by
    rw [List.dropWhile_append_of_pos hdigits]
    rfl
  unfold readFraction
  simp only [List.cons_append, htake, hdrop, List.take_of_length_le hlength]
  rw [if_neg hne]

theorem readFraction_isoformat (d : DateTime) :
    readFraction ((if d.fraction = 0 then [] else '.' :: padded 6 d.fraction) ++ "+00:00".toList) =
      some (d.fraction, "+00:00".toList) := by
  split_ifs with hzero
  · rw [hzero]
    rfl
  · have hlt : d.fraction < 10 ^ 6 := Nat.mod_lt _ (by norm_num)
    have hlength := padded_length (by norm_num : 0 < 6) hlt
    rw [readFraction_digits isDigit_of_mem_padded (List.ne_nil_of_length_pos (by omega)) hlength.le,
      hlength, ofDigitChars_padded, Nat.sub_self, Nat.pow_zero, Nat.mul_one]

theorem ne_zulu_of_mem_isoSeconds (d : DateTime) : ∀ c ∈ d.isoSeconds, c ≠ 'Z' := by
  have hdigit : ∀ width n, ∀ c ∈ padded width n, c ≠ 'Z' := by
    rintro width n c hc rfl
    exact absurd (isDigit_of_mem_padded _ hc) (by decide)
  intro c hc
  simp only [isoSeconds, List.mem_append, List.mem_cons] at hc
  have hmark : 'Z' ≠ '-' ∧ 'Z' ≠ 'T' ∧ 'Z' ≠ ':' := by decide
  rintro rfl
  simp only [hmark, false_or] at hc
  rcases hc with ((((hc | hc) | hc) | hc) | hc) | hc <;> exact hdigit _ _ _ hc rfl

theorem fromisoformat_isoformat (d : DateTime) : fromisoformat d.isoformat = .ok (d, some 0) := by
  rw [isoformat_eq]
  exact d.fromisoformat_isoSeconds d.readFraction_isoformat

end DateTime
end Python
