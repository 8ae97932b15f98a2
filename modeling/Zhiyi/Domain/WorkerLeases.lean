import Zhiyi.Domain.Identifiers
import Zhiyi.Library.DateTime
import Zhiyi.Library.Sha256

set_option autoImplicit false

/-! Worker lease capability values, grants, authority results and recovery
observations, and the commands of the worker lease boundary. -/
namespace Zhiyi
open Python

abbrev WorkerId := Identifier .worker

/-- A UUIDv7 of the RFC variant, as its 128-bit number. -/
structure LeaseClaimId where
  value : ℕ
  bound : value < 2 ^ 128
  rfcVariant : value / 2 ^ 62 % 4 = 2
  versionSeven : value / 2 ^ 76 % 16 = 7
  deriving DecidableEq

def LeaseClaimId.new (value : ℕ) : Except PyError LeaseClaimId :=
  if h : value < 2 ^ 128 ∧ value / 2 ^ 62 % 4 = 2 ∧ value / 2 ^ 76 % 16 = 7 then
    .ok ⟨value, h.1, h.2.1, h.2.2⟩
  else .error (.valueError "claim identifier must be UUIDv7 with the RFC variant")

@[simp] theorem LeaseClaimId.new_value (claimId : LeaseClaimId) : new claimId.value = .ok claimId :=
  dif_pos ⟨claimId.bound, claimId.rfcVariant, claimId.versionSeven⟩

theorem LeaseClaimId.value_injective : Function.Injective LeaseClaimId.value := by
  intro a b h
  cases a
  cases b
  simp_all

def leaseTokenBytes : ℕ := 32

structure LeaseToken where
  bytes : List UInt8
  length_eq : bytes.length = leaseTokenBytes
  deriving DecidableEq

def LeaseToken.new (bytes : List UInt8) : Except PyError LeaseToken :=
  if h : bytes.length = leaseTokenBytes then .ok ⟨bytes, h⟩
  else .error (.valueError "lease token must contain exactly 32 bytes")

@[simp] theorem LeaseToken.new_bytes (token : LeaseToken) : new token.bytes = .ok token :=
  dif_pos token.length_eq

def digestLeaseToken (token : LeaseToken) : List ℕ :=
  Sha256.digest (token.bytes.map UInt8.toNat)

/-- `lease_token_matches`, for a digest of 32 bytes. -/
def leaseTokenMatches (token : LeaseToken) (expectedDigest : List ℕ) : Bool :=
  digestLeaseToken token == expectedDigest

structure LeaseDurationSeconds where
  value : ℕ
  range : 10 ≤ value ∧ value ≤ 30
  deriving DecidableEq

def LeaseDurationSeconds.new (value : ℕ) : Except PyError LeaseDurationSeconds :=
  if h : 10 ≤ value ∧ value ≤ 30 then .ok ⟨value, h⟩
  else .error (.valueError "lease duration must be between 10 and 30 seconds")

@[simp] theorem LeaseDurationSeconds.new_value (duration : LeaseDurationSeconds) :
    new duration.value = .ok duration :=
  dif_pos duration.range

/-- The duration as a `timedelta` in microseconds. -/
def LeaseDurationSeconds.micros (duration : LeaseDurationSeconds) : ℤ := duration.value * 1000000

theorem LeaseDurationSeconds.micros_pos (duration : LeaseDurationSeconds) : 0 < duration.micros := by
  have := duration.range
  unfold micros
  omega

def maxSignedBigint : ℕ := 9223372036854775807

structure PositiveCounter where
  value : ℕ
  range : 1 ≤ value ∧ value ≤ maxSignedBigint
  deriving DecidableEq

namespace PositiveCounter

def new (value : ℕ) : Except PyError PositiveCounter :=
  if h : 1 ≤ value ∧ value ≤ maxSignedBigint then .ok ⟨value, h⟩
  else .error (.valueError "counter must be a positive integer within PostgreSQL bigint")

def one : PositiveCounter := ⟨1, by decide⟩

def next (counter : PositiveCounter) : Except PyError PositiveCounter :=
  if counter.value = maxSignedBigint then
    .error (.overflowError "counter cannot exceed PostgreSQL bigint")
  else new (counter.value + 1)

@[simp] theorem new_value (counter : PositiveCounter) : new counter.value = .ok counter :=
  dif_pos counter.range

theorem next_eq_ok {counter following : PositiveCounter} (h : counter.next = .ok following) :
    following.value = counter.value + 1 := by
  unfold next new at h
  split_ifs at h
  cases h
  rfl

theorem next_ok {counter : PositiveCounter} (h : counter.value ≠ maxSignedBigint) :
    ∃ following, counter.next = .ok following := by
  have hlt : counter.value + 1 ≤ maxSignedBigint := lt_of_le_of_ne counter.range.2 h
  have hrange : 1 ≤ counter.value + 1 ∧ counter.value + 1 ≤ maxSignedBigint := ⟨by omega, hlt⟩
  exact ⟨⟨counter.value + 1, hrange⟩, by rw [next, if_neg h, new, dif_pos hrange]⟩

theorem next_error {counter : PositiveCounter} (h : counter.value = maxSignedBigint) :
    ∃ e, counter.next = .error e := ⟨_, by rw [next, if_pos h]⟩

theorem value_injective : Function.Injective PositiveCounter.value := by
  intro a b h
  cases a
  cases b
  simp_all

end PositiveCounter

abbrev LeaseAttemptNo := PositiveCounter
abbrev LeaseVersion := PositiveCounter

/-- `renew_by_at`: one third of the duration, floored to a microsecond. -/
def renewByAt (capturedAt : DateTime) (duration : LeaseDurationSeconds) : Except PyError DateTime :=
  capturedAt.add (duration.value * 1000000 / 3 : ℕ)

theorem renewByAt_ok {capturedAt : DateTime} {duration : LeaseDurationSeconds}
    (h : ¬ maxMicros < capturedAt.micros + duration.micros) :
    ∃ renewBy, renewByAt capturedAt duration = .ok renewBy ∧
      renewBy.micros = capturedAt.micros + (duration.value * 1000000 / 3 : ℕ) := by
  refine DateTime.add_ok (Int.natCast_nonneg _) ?_
  unfold LeaseDurationSeconds.micros at h
  omega

structure LeaseAuthorityProof where
  tenantId : TenantId
  runId : RunId
  workerId : WorkerId
  claimId : LeaseClaimId
  attemptNo : LeaseAttemptNo
  token : LeaseToken
  deriving DecidableEq

structure LeaseGrantFields where
  proof : LeaseAuthorityProof
  leaseVersion : LeaseVersion
  duration : LeaseDurationSeconds
  acquiredAt : DateTime
  heartbeatAt : DateTime
  leaseExpiresAt : DateTime
  renewByAt : DateTime
  currentlyAuthoritative : Bool
  deriving DecidableEq

def LeaseGrantFields.postInit (f : LeaseGrantFields) : Except PyError Unit := do
  require (!(f.heartbeatAt < f.acquiredAt)) (.valueError "heartbeat_at must not precede acquired_at")
  require (!(f.leaseExpiresAt ≤ f.heartbeatAt)) (.valueError "lease_expires_at must follow heartbeat_at")
  require (f.heartbeatAt < f.renewByAt && f.renewByAt < f.leaseExpiresAt)
    (.valueError "renew_by_at must be within the current lease interval")

structure LeaseGrant extends LeaseGrantFields where
  valid : toLeaseGrantFields.postInit = .ok ()
  deriving DecidableEq

def LeaseGrant.new (f : LeaseGrantFields) : Except PyError LeaseGrant :=
  construct f.postInit fun valid => ⟨f, valid⟩

/-- `LeaseClaimOutcome`: a grant, or no work. -/
structure LeaseClaimOutcome where
  grant : Option LeaseGrant
  replayed : Bool
  deriving DecidableEq

structure LeaseMetadata where
  leaseVersion : LeaseVersion
  acquiredAt : DateTime
  heartbeatAt : DateTime
  leaseExpiresAt : DateTime
  ordered : acquiredAt ≤ heartbeatAt ∧ heartbeatAt ≤ leaseExpiresAt
  deriving DecidableEq

def LeaseMetadata.new (leaseVersion : LeaseVersion) (acquiredAt heartbeatAt leaseExpiresAt : DateTime) :
    Except PyError LeaseMetadata :=
  if h : acquiredAt ≤ heartbeatAt ∧ heartbeatAt ≤ leaseExpiresAt then
    .ok ⟨leaseVersion, acquiredAt, heartbeatAt, leaseExpiresAt, h⟩
  else .error (.valueError "authority timestamps are inconsistent")

/-- The reason is absent exactly when the result is authoritative. -/
structure LeaseAuthority where
  authoritative : Bool
  reason : Option WorkerLeaseErrorCode
  metadata : Option LeaseMetadata
  safe : if authoritative then reason = none
    else reason = some .leaseNotCurrent ∨ reason = some .leaseExpired
  deriving DecidableEq

namespace LeaseAuthority

def current (metadata : LeaseMetadata) : LeaseAuthority := ⟨true, none, some metadata, rfl⟩

def notCurrent : LeaseAuthority := ⟨false, some .leaseNotCurrent, none, .inl rfl⟩

def expired (metadata : LeaseMetadata) : LeaseAuthority :=
  ⟨false, some .leaseExpired, some metadata, .inr rfl⟩

/-- `_matched_not_current`: the proof matches a lease without authority. -/
def matchedNotCurrent (metadata : LeaseMetadata) : LeaseAuthority :=
  ⟨false, some .leaseNotCurrent, some metadata, .inl rfl⟩

end LeaseAuthority

structure ConditionalLeaseOutcome where
  applied : Bool
  authority : LeaseAuthority
  renewByAt : Option DateTime
  deriving DecidableEq

inductive InactiveRunningReason where
  | expired | released
  deriving DecidableEq

def InactiveRunningReason.value : InactiveRunningReason → String
  | .expired => "expired"
  | .released => "released"

structure InactiveRunningLeaseFields where
  tenantId : TenantId
  runId : RunId
  attemptNo : LeaseAttemptNo
  leaseVersion : LeaseVersion
  acquiredAt : DateTime
  heartbeatAt : DateTime
  authorityEndedAt : DateTime
  reason : InactiveRunningReason
  deriving DecidableEq

def InactiveRunningLeaseFields.postInit (f : InactiveRunningLeaseFields) : Except PyError Unit := do
  require (!(f.heartbeatAt < f.acquiredAt)) (.valueError "heartbeat_at must not precede acquired_at")
  require (!(f.authorityEndedAt < f.acquiredAt))
    (.valueError "authority_ended_at must not precede acquired_at")

structure InactiveRunningLease extends InactiveRunningLeaseFields where
  valid : toInactiveRunningLeaseFields.postInit = .ok ()
  deriving DecidableEq

def InactiveRunningLease.new (f : InactiveRunningLeaseFields) : Except PyError InactiveRunningLease :=
  construct f.postInit fun valid => ⟨f, valid⟩

theorem InactiveRunningLease.new_eq_ok {f : InactiveRunningLeaseFields} {lease : InactiveRunningLease}
    (h : new f = .ok lease) : lease.toInactiveRunningLeaseFields = f := by
  obtain ⟨_, rfl⟩ := construct_eq_ok h
  rfl

structure InactiveRunningCursor where
  tenantId : TenantId
  asOf : DateTime
  lastAuthorityEndedAt : DateTime
  lastRunId : RunId
  ordered : lastAuthorityEndedAt ≤ asOf
  deriving DecidableEq

def InactiveRunningCursor.new (tenantId : TenantId) (asOf lastAuthorityEndedAt : DateTime)
    (lastRunId : RunId) : Except PyError InactiveRunningCursor :=
  if h : lastAuthorityEndedAt ≤ asOf then .ok ⟨tenantId, asOf, lastAuthorityEndedAt, lastRunId, h⟩
  else .error (.valueError "cursor key cannot be after as_of")

structure InactiveRunningPage where
  items : List InactiveRunningLease
  nextCursor : Option InactiveRunningCursor
  deriving DecidableEq

structure ClaimLeaseCommand where
  tenantId : TenantId
  workerId : WorkerId
  claimId : LeaseClaimId
  duration : LeaseDurationSeconds
  deriving DecidableEq

/-- `_length_prefixed`, on ASCII text. -/
def lengthPrefixed (value : String) : String := Nat.repr value.length ++ ":" ++ value

def encodeClaimIntent (workerId : WorkerId) (duration : LeaseDurationSeconds) : String :=
  lengthPrefixed "1" ++ "|" ++ lengthPrefixed workerId.value ++ "|" ++
    lengthPrefixed (Nat.repr duration.value)

def ClaimLeaseCommand.intentFingerprint (command : ClaimLeaseCommand) : String :=
  "sha256:" ++ Sha256.hexdigest (encodeClaimIntent command.workerId command.duration)

structure RenewLeaseCommand where
  proof : LeaseAuthorityProof
  expectedVersion : LeaseVersion
  duration : LeaseDurationSeconds
  deriving DecidableEq

structure ReleaseLeaseCommand where
  proof : LeaseAuthorityProof
  expectedVersion : LeaseVersion
  deriving DecidableEq

end Zhiyi
