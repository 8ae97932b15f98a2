import Zhiyi.Library.Python

set_option autoImplicit false

/-! Aware UTC datetimes as microseconds from the epoch, limited to the years
1 to 9999, with the arithmetic, the float conversion and the ISO text of
CPython's `datetime` module. -/
namespace Python

/-- `datetime.min` and `datetime.max` in UTC. -/
def minMicros : ℤ := -62135596800000000
def maxMicros : ℤ := 253402300799999999

def DateTime : Type := {t : ℤ // minMicros ≤ t ∧ t ≤ maxMicros}

namespace DateTime

instance : LinearOrder DateTime :=
  inferInstanceAs (LinearOrder {t : ℤ // minMicros ≤ t ∧ t ≤ maxMicros})

def micros (d : DateTime) : ℤ := d.val

theorem le_iff {a b : DateTime} : a ≤ b ↔ a.micros ≤ b.micros := Iff.rfl

theorem lt_iff {a b : DateTime} : a < b ↔ a.micros < b.micros := Iff.rfl

theorem ext_micros {a b : DateTime} (h : a.micros = b.micros) : a = b := Subtype.ext h

def ofMicros (t : ℤ) (error : PyError) : Except PyError DateTime :=
  if h : minMicros ≤ t ∧ t ≤ maxMicros then .ok ⟨t, h⟩ else .error error

/-- `d + timedelta(microseconds=delta)`. -/
def add (d : DateTime) (delta : ℤ) : Except PyError DateTime :=
  ofMicros (d.micros + delta) (.overflowError "date value out of range")

theorem ofMicros_eq_ok {t : ℤ} {error : PyError} {d : DateTime} (h : ofMicros t error = .ok d) :
    d.micros = t := by
  unfold ofMicros at h
  split at h
  · cases h
    rfl
  · cases h

theorem add_eq_ok {d u : DateTime} {delta : ℤ} (h : d.add delta = .ok u) :
    u.micros = d.micros + delta := ofMicros_eq_ok h

theorem add_ok {d : DateTime} {delta : ℤ} (hdelta : 0 ≤ delta) (h : ¬ maxMicros < d.micros + delta) :
    ∃ u, d.add delta = .ok u ∧ u.micros = d.micros + delta := by
  have hmin : minMicros ≤ d.micros := d.property.1
  have hrange : minMicros ≤ d.micros + delta ∧ d.micros + delta ≤ maxMicros :=
    ⟨hmin.trans (le_add_of_nonneg_right hdelta), not_lt.mp h⟩
  exact ⟨⟨d.micros + delta, hrange⟩, by rw [add, ofMicros, dif_pos hrange], rfl⟩

theorem add_error {d : DateTime} {delta : ℤ} (h : maxMicros < d.micros + delta) :
    d.add delta = .error (.overflowError "date value out of range") := by
  rw [add, ofMicros, dif_neg fun hrange => absurd hrange.2 (not_le.mpr h)]

def second : ℤ := 1000000

/-- The IEEE double nearest to `num / den` as `mantissa / 2 ^ shift`, for
    quotients below `2 ^ 53`. -/
def roundToDouble (num den : ℕ) : ℕ × ℕ :=
  if num = 0 then (0, 0)
  else
    let wide := 53 + Nat.log2 den - Nat.log2 num
    let shift := if 2 ^ 53 ≤ num * 2 ^ wide / den then wide - 1 else wide
    (roundHalfEven (num * 2 ^ shift) den, shift)

/-- The microseconds of `milliseconds / 1_000` seconds: the division and the scaling of the
    fraction to microseconds each round to a double. -/
def doubleMicros (milliseconds : ℕ) : ℕ :=
  let seconds := roundToDouble milliseconds 1000
  let micros := roundToDouble (seconds.1 % 2 ^ seconds.2 * 1000000) (2 ^ seconds.2)
  seconds.1 / 2 ^ seconds.2 * 1000000 + roundHalfEven micros.1 (2 ^ micros.2)

/-- `datetime.fromtimestamp(milliseconds / 1_000, tz=UTC)`. -/
def fromTimestampMillis (milliseconds : ℕ) : Except PyError DateTime :=
  ofMicros (doubleMicros milliseconds) (.valueError "year is out of range")

def isLeap (year : ℕ) : Bool := year % 4 == 0 && (year % 100 != 0 || year % 400 == 0)

def daysBeforeYear (year : ℕ) : ℕ :=
  let y := year - 1
  y * 365 + y / 4 - y / 100 + y / 400

def cumulativeDays : List ℕ := [0, 0, 31, 59, 90, 120, 151, 181, 212, 243, 273, 304, 334]

def daysBeforeMonth (year month : ℕ) : ℕ :=
  cumulativeDays.getD month 0 + (if 2 < month && isLeap year then 1 else 0)

def daysInMonth (year month : ℕ) : ℕ :=
  if month == 2 && isLeap year then 29
  else [0, 31, 28, 31, 30, 31, 30, 31, 31, 30, 31, 30, 31].getD month 0

/-- `_ymd2ord`. -/
def ymdToOrdinal (year month day : ℕ) : ℕ :=
  daysBeforeYear year + daysBeforeMonth year month + day

/-- `_ord2ymd`. -/
def ordinalToYmd (ordinal : ℕ) : ℕ × ℕ × ℕ :=
  let n := ordinal - 1
  let n400 := n / 146097
  let n := n % 146097
  let n100 := n / 36524
  let n := n % 36524
  let n4 := n / 1461
  let n := n % 1461
  let n1 := n / 365
  let n := n % 365
  let year := n400 * 400 + 1 + n100 * 100 + n4 * 4 + n1
  if n1 == 4 || n100 == 4 then (year - 1, 12, 31)
  else
    let leapYear := n1 == 3 && (n4 != 24 || n100 == 3)
    let month := (n + 50) / 32
    let preceding := cumulativeDays.getD month 0 + (if 2 < month && leapYear then 1 else 0)
    if n < preceding then
      let month := month - 1
      let preceding := preceding - daysInMonth year month
      (year, month, n - preceding + 1)
    else (year, month, n - preceding + 1)

def padded (width n : ℕ) : List Char :=
  let digits := Nat.toDigits 10 n
  List.replicate (width - digits.length) '0' ++ digits

/-- `d.isoformat()` for an aware UTC datetime. -/
def isoformat (d : DateTime) : String :=
  let total := (d.micros - minMicros).toNat
  let (year, month, day) := ordinalToYmd (total / 86400000000 + 1)
  let rest := total % 86400000000
  let seconds := rest / 1000000
  let fraction := rest % 1000000
  String.ofList <|
    padded 4 year ++ '-' :: padded 2 month ++ '-' :: padded 2 day ++
    'T' :: padded 2 (seconds / 3600) ++ ':' :: padded 2 (seconds / 60 % 60) ++
    ':' :: padded 2 (seconds % 60) ++
    (if fraction = 0 then [] else '.' :: padded 6 fraction) ++ "+00:00".toList

end DateTime

/-- An aware datetime as a driver hands it over: an instant and the offset of
    the zone it is shown in. -/
structure ZonedDateTime where
  instant : DateTime
  utcOffset : ℤ
  deriving DecidableEq

end Python
