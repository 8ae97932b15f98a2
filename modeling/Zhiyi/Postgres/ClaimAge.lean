import Zhiyi.Library.Doubles
import Zhiyi.Postgres.Refusals

set_option autoImplicit false

/-! The age of a claim id: the milliseconds of its 48-bit field against the window of
the claim contract. -/
namespace Zhiyi
open Python

def LeaseClaimId.micros (claimId : LeaseClaimId) : ℤ := claimId.milliseconds * 1000

def seconds60 : ℤ := 60000000

/-- The claim contract: more than 60 seconds ahead, or 24 hours and more behind. -/
def classifyAge (claimId : LeaseClaimId) (platformNow : DateTime) : Except Failure Unit :=
  if platformNow.micros + seconds60 < claimId.micros then .error (.lease .invalidInput)
  else if claimId.micros + hours24 ≤ platformNow.micros then .error (.lease .idempotencyExpired)
  else .ok ()

/-- The first millisecond that no datetime shows. -/
def year10000 : ℕ := 253402300800000

/-- A double shows the embedded time. -/
def LeaseClaimId.Exact (claimId : LeaseClaimId) : Prop :=
  (DateTime.doubleMicros claimId.milliseconds : ℤ) = claimId.micros

/-- The times that lie between the embedded time and the double that stands for it: those that are
    before one of the two and not before the other. -/
def LeaseClaimId.rounding (claimId : LeaseClaimId) : Set ℤ :=
  Set.Ico (min (DateTime.doubleMicros claimId.milliseconds) claimId.micros)
    (max (DateTime.doubleMicros claimId.milliseconds) claimId.micros)

/-- Datetimes show the claim id and both ends of its window, and rounding takes the claim id across
    neither end. -/
structure LeaseClaimId.Shown (claimId : LeaseClaimId) (platformNow : DateTime) : Prop where
  issued : claimId.milliseconds < year10000
  latest : platformNow.micros + seconds60 ≤ maxMicros
  expiry : claimId.micros ≤ platformNow.micros + seconds60 → claimId.micros + hours24 ≤ maxMicros
  future : platformNow.micros + seconds60 ∉ claimId.rounding
  expired : platformNow.micros - hours24 ∉ claimId.rounding

theorem LeaseClaimId.notMem_rounding_iff {claimId : LeaseClaimId} {t : ℤ} :
    t ∉ claimId.rounding ↔ (t < DateTime.doubleMicros claimId.milliseconds ↔ t < claimId.micros) := by
  unfold rounding
  rw [Set.mem_Ico, min_le_iff, lt_max_iff]
  omega

theorem LeaseClaimId.Exact.rounding {claimId : LeaseClaimId} (h : claimId.Exact) (t : ℤ) :
    t ∉ claimId.rounding := by
  rw [notMem_rounding_iff, h]

theorem LeaseClaimId.milliseconds_lt (claimId : LeaseClaimId) : claimId.milliseconds < 2 ^ 48 := by
  rw [milliseconds, Nat.shiftRight_eq_div_pow]
  exact Nat.div_lt_of_lt_mul (by simpa [← pow_add] using claimId.bound)

theorem LeaseClaimId.exact_of_early {claimId : LeaseClaimId} (hearly : claimId.milliseconds < 1000 * 2 ^ 33) :
    claimId.Exact := by
  rw [Exact, DateTime.doubleMicros_early hearly, LeaseClaimId.micros]
  push_cast
  rfl

theorem LeaseClaimId.shown_of_early {claimId : LeaseClaimId} {platformNow : DateTime}
    (hearly : claimId.milliseconds < 1000 * 2 ^ 33)
    (hlatest : platformNow.micros + seconds60 ≤ maxMicros) : claimId.Shown platformNow := by
  have hexact := exact_of_early hearly
  refine ⟨hearly.trans (by norm_num [year10000]), hlatest, fun _ => ?_, hexact.rounding _, hexact.rounding _⟩
  have := Int.ofNat_lt.mpr hearly
  simp only [LeaseClaimId.micros, hours24, maxMicros]
  push_cast at this
  omega

theorem raising_ofMicros_bind {α : Type} {t : ℤ} (error : PyError) (ht : minMicros ≤ t)
    {f : DateTime → Except Failure α} {x : Except Failure α} (h : ∀ d : DateTime, d.micros = t → f d = x) :
    (raising (DateTime.ofMicros t error) >>= f) = if maxMicros < t then .error (.python error) else x := by
  split_ifs with hlate
  · rw [DateTime.ofMicros, dif_neg fun hrange => absurd hrange.2 (not_le.mpr hlate)]
    rfl
  · rw [DateTime.ofMicros, dif_pos ⟨ht, not_lt.mp hlate⟩]
    exact h ⟨t, ht, not_lt.mp hlate⟩ rfl

theorem require_not_bind {α : Type} (p : Prop) [Decidable p] (error : Failure)
    (f : Unit → Except Failure α) :
    (require (!decide p) error >>= f) = if p then .error error else f () := by
  split_ifs with h <;> simp [h, bind, Except.bind]

/-- The checks of `_validate_claim_age` in their order, with the exceptions between them. -/
theorem validateClaimAge_eq (claimId : LeaseClaimId) (platformNow : DateTime) :
    validateClaimAge claimId platformNow =
      let issued : ℤ := DateTime.doubleMicros claimId.milliseconds
      if maxMicros < issued then .error (.python (.valueError "year is out of range"))
      else if maxMicros < platformNow.micros + seconds60 then
        .error (.python (.overflowError "date value out of range"))
      else if platformNow.micros + seconds60 < issued then .error (.lease .invalidInput)
      else if maxMicros < issued + hours24 then
        .error (.python (.overflowError "date value out of range"))
      else if issued + hours24 ≤ platformNow.micros then .error (.lease .idempotencyExpired)
      else .ok () := by
  have hpast : minMicros ≤ (DateTime.doubleMicros claimId.milliseconds : ℤ) := by
    unfold minMicros
    omega
  have hnow : minMicros ≤ platformNow.micros := platformNow.property.1
  unfold validateClaimAge claimIdIssuedAt
  rw [show claimId.value >>> 80 = claimId.milliseconds from rfl, DateTime.fromTimestampMillis]
  -- only the count matters from here on, not how it was rounded
  generalize (DateTime.doubleMicros claimId.milliseconds : ℤ) = micros at hpast ⊢
  refine raising_ofMicros_bind _ hpast fun issued hissued => ?_
  refine raising_ofMicros_bind _ (by unfold DateTime.second; omega) fun latest hlatest => ?_
  rw [← hissued] at hpast ⊢
  rw [require_not_bind]
  refine if_congr (by rw [DateTime.lt_iff, hlatest]; rfl) rfl ?_
  refine raising_ofMicros_bind _ (by unfold hours24; omega) fun expiresAt hexpiresAt => ?_
  rw [← hexpiresAt, require]
  by_cases hexpired : expiresAt ≤ platformNow
  · rw [if_pos (DateTime.le_iff.mp hexpired)]
    simp [hexpired]
  · rw [if_neg (mt DateTime.le_iff.mpr hexpired)]
    simp [hexpired]

theorem issued_le_iff (claimId : LeaseClaimId) :
    (DateTime.doubleMicros claimId.milliseconds : ℤ) ≤ maxMicros ↔ claimId.milliseconds < year10000 := by
  have herror := abs_le.mp (DateTime.doubleMicros_error claimId.milliseconds_lt)
  have hseconds := DateTime.seconds_le_doubleMicros claimId.milliseconds
  unfold maxMicros year10000
  omega

theorem expiry_le_iff (claimId : LeaseClaimId) :
    DateTime.doubleMicros claimId.milliseconds + hours24 ≤ maxMicros ↔
      claimId.micros + hours24 ≤ maxMicros := by
  have herror := abs_le.mp (DateTime.doubleMicros_error claimId.milliseconds_lt)
  have hseconds := DateTime.seconds_le_doubleMicros claimId.milliseconds
  unfold maxMicros hours24 LeaseClaimId.micros
  omega

theorem classifyAge_ne_python (claimId : LeaseClaimId) (platformNow : DateTime) (e : PyError) :
    classifyAge claimId platformNow ≠ .error (.python e) := by
  unfold classifyAge
  split_ifs <;> simp

theorem validateClaimAge_of_shown {claimId : LeaseClaimId} {platformNow : DateTime}
    (h : claimId.Shown platformNow) :
    validateClaimAge claimId platformNow = classifyAge claimId platformNow := by
  rw [validateClaimAge_eq, classifyAge]
  dsimp only
  rw [if_neg (not_lt.mpr ((issued_le_iff claimId).mpr h.issued)), if_neg (not_lt.mpr h.latest)]
  have hahead := LeaseClaimId.notMem_rounding_iff.mp h.future
  have hbehind := LeaseClaimId.notMem_rounding_iff.mp h.expired
  by_cases hfuture : platformNow.micros + seconds60 < claimId.micros
  · rw [if_pos (hahead.mpr hfuture), if_pos hfuture]
  · rw [if_neg (mt hahead.mp hfuture), if_neg hfuture,
      if_neg (not_lt.mpr ((expiry_le_iff claimId).mpr (h.expiry (not_lt.mp hfuture))))]
    exact if_congr (by omega) rfl rfl

theorem classifyAge_eq_iff (claimId : LeaseClaimId) (platformNow : DateTime) :
    (classifyAge claimId platformNow = .error (.lease .invalidInput) ↔
      platformNow.micros + seconds60 < claimId.micros) ∧
    (classifyAge claimId platformNow = .error (.lease .idempotencyExpired) ↔
      claimId.micros + hours24 ≤ platformNow.micros) := by
  unfold classifyAge seconds60 hours24
  constructor <;> split_ifs <;> simp <;> omega

theorem shown_of_validateClaimAge {claimId : LeaseClaimId} {platformNow : DateTime}
    (h : validateClaimAge claimId platformNow = classifyAge claimId platformNow) :
    claimId.Shown platformNow := by
  have hpython := classifyAge_ne_python claimId platformNow
  obtain ⟨hinvalid, hexpires⟩ := classifyAge_eq_iff claimId platformNow
  rw [← h, validateClaimAge_eq] at hpython hinvalid hexpires
  dsimp only at hpython hinvalid hexpires
  split_ifs at hpython hinvalid hexpires with hissued hlatest hfuture hexpiry hexpired
  · exact absurd rfl (hpython _)
  · exact absurd rfl (hpython _)
  all_goals
    rw [not_lt, issued_le_iff] at hissued
    rw [not_lt] at hlatest
  · -- the claim id is ahead of its window
    have hahead := hinvalid.mp rfl
    refine ⟨hissued, hlatest, fun hle => absurd hahead (not_lt.mpr hle),
      LeaseClaimId.notMem_rounding_iff.mpr (iff_of_true hfuture hahead), ?_⟩
    rw [LeaseClaimId.notMem_rounding_iff]
    unfold seconds60 at hahead hfuture
    unfold hours24
    omega
  · exact absurd rfl (hpython _)
  · -- it is behind
    rw [not_lt, expiry_le_iff] at hexpiry
    have hbehind := hexpires.mp rfl
    refine ⟨hissued, hlatest, fun _ => hexpiry,
      LeaseClaimId.notMem_rounding_iff.mpr (iff_of_false hfuture (mt hinvalid.mpr nofun)), ?_⟩
    rw [LeaseClaimId.notMem_rounding_iff]
    omega
  · -- it is inside
    rw [not_lt, expiry_le_iff] at hexpiry
    have hinside := mt hexpires.mpr nofun
    refine ⟨hissued, hlatest, fun _ => hexpiry,
      LeaseClaimId.notMem_rounding_iff.mpr (iff_of_false hfuture (mt hinvalid.mpr nofun)), ?_⟩
    rw [LeaseClaimId.notMem_rounding_iff]
    omega

structure ClassifiesAge (command : ClaimLeaseCommand) (platformNow : DateTime) : Prop where
  age : validateClaimAge command.claimId platformNow = classifyAge command.claimId platformNow
  rejects : ∀ e, classifyAge command.claimId platformNow = .error e →
    ∀ (db : Database) token clock raceNow,
      db.claim command token platformNow clock raceNow = some (db, .error e)
  proceeds : classifyAge command.claimId platformNow = .ok () →
    ∀ db : Database, db.claimLookup command platformNow = db.receiptLookup command platformNow

/-- Claims are classified by age exactly where datetimes and doubles show that age. -/
theorem claims_classified_iff (command : ClaimLeaseCommand) (platformNow : DateTime) :
    ClassifiesAge command platformNow ↔ command.claimId.Shown platformNow := by
  refine ⟨fun h => shown_of_validateClaimAge h.age, fun h => ?_⟩
  have hage := validateClaimAge_of_shown h
  refine ⟨hage, fun e he db token clock raceNow => ?_, fun hok db => ?_⟩
  · have hlookup : db.claimLookup command platformNow = .error e := by
      rw [Database.claimLookup, hage, he]
      rfl
    rw [Database.claim, Database.claimTransaction_def]
    simp only [hlookup, Option.map_some, Database.claimFailure]
  · rw [Database.claimLookup, hage, hok]
    rfl

namespace Sample

/-- The claim id with the latest milliseconds. -/
def latestClaimId : LeaseClaimId :=
  ⟨(2 ^ 48 - 1) * 2 ^ 80 + 7 * 2 ^ 76 + 2 * 2 ^ 62, by decide, by decide, by decide⟩

def latestClaim : ClaimLeaseCommand := ⟨tenant, worker, latestClaimId, ⟨30, longest_range⟩⟩

end Sample

open Sample in
/-- The identifier type accepts a claim id of the year 10889, which no datetime shows. -/
theorem latestClaim_not_classified :
    validateClaimAge latestClaimId opening = .error (.python (.valueError "year is out of range")) ∧
      ¬ClassifiesAge latestClaim opening := by
  have hraises : validateClaimAge latestClaimId opening =
      .error (.python (.valueError "year is out of range")) := by decide
  exact ⟨hraises, fun h => classifyAge_ne_python latestClaimId opening _ (h.age.symm.trans hraises)⟩

end Zhiyi
