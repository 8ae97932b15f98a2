import Zhiyi.Domain.WorkerLeases
import Zhiyi.Postgres.RunCodecs

set_option autoImplicit false

/-! Strict format-1 codecs of retained leases and claim receipts. The columns of
a row are shared by the stored row, whose timestamps are instants, and by the
mapping of a driver, whose timestamps carry an offset. -/
namespace Zhiyi
open Python

def claimIntentFormatVersion : ℕ := 1

/-- Every exception of a lease decoder is reported as corrupt data. -/
def leaseCorrupted {α : Type} (x : Except PyError α) : Except Failure α :=
  x.mapError fun _ => .lease .dataCorruption

def claimIdIssuedAt (claimId : LeaseClaimId) : Except PyError DateTime :=
  DateTime.fromTimestampMillis (claimId.value >>> 80)

def requireUtc (name : String) (value : ZonedDateTime) : Except PyError DateTime := do
  require (value.utcOffset == 0) (.valueError (name ++ " must be an aware UTC datetime"))
  return value.instant

@[simp] theorem requireUtc_utc (name : String) (d : DateTime) : requireUtc name (utc d) = .ok d := rfl

structure WorkerLeaseFields where
  tenantId : TenantId
  runId : RunId
  workerId : WorkerId
  claimId : LeaseClaimId
  tokenDigest : List ℕ
  attemptNo : LeaseAttemptNo
  leaseVersion : LeaseVersion
  duration : LeaseDurationSeconds
  acquiredAt : DateTime
  heartbeatAt : DateTime
  leaseExpiresAt : DateTime
  releasedAt : Option DateTime
  deriving DecidableEq

def WorkerLeaseFields.postInit (f : WorkerLeaseFields) : Except PyError Unit := do
  require (f.tokenDigest.length == 32) (.valueError "token_digest must contain exactly 32 bytes")
  require (!(f.heartbeatAt < f.acquiredAt)) (.valueError "heartbeat_at must not precede acquired_at")
  require (!(f.leaseExpiresAt ≤ f.heartbeatAt)) (.valueError "lease_expires_at must follow heartbeat_at")
  require (f.releasedAt.all fun releasedAt => !(releasedAt < f.acquiredAt))
    (.valueError "released_at must not precede acquired_at")

structure WorkerLeaseRecord extends WorkerLeaseFields where
  valid : toWorkerLeaseFields.postInit = .ok ()
  deriving DecidableEq

def WorkerLeaseRecord.new (f : WorkerLeaseFields) : Except PyError WorkerLeaseRecord :=
  construct f.postInit fun valid => ⟨f, valid⟩

/-- The columns of `worker_leases` besides its key. -/
structure WorkerLeaseColumns (τ : Type) where
  workerId : String
  claimId : ℕ
  tokenDigest : List ℕ
  attemptNo : ℕ
  leaseVersion : ℕ
  durationSeconds : ℕ
  acquiredAt : τ
  heartbeatAt : τ
  leaseExpiresAt : τ
  releasedAt : Option τ
  recordFormatVersion : ℕ
  deriving DecidableEq

def WorkerLeaseColumns.map {τ σ : Type} (f : τ → σ) (columns : WorkerLeaseColumns τ) :
    WorkerLeaseColumns σ where
  workerId := columns.workerId
  claimId := columns.claimId
  tokenDigest := columns.tokenDigest
  attemptNo := columns.attemptNo
  leaseVersion := columns.leaseVersion
  durationSeconds := columns.durationSeconds
  acquiredAt := f columns.acquiredAt
  heartbeatAt := f columns.heartbeatAt
  leaseExpiresAt := f columns.leaseExpiresAt
  releasedAt := columns.releasedAt.map f
  recordFormatVersion := columns.recordFormatVersion

structure WorkerLeaseMapping extends WorkerLeaseColumns ZonedDateTime where
  tenantId : String
  runId : String
  deriving DecidableEq

def encodeWorkerLease (record : WorkerLeaseRecord) : WorkerLeaseMapping where
  tenantId := record.tenantId.value
  runId := record.runId.value
  workerId := record.workerId.value
  claimId := record.claimId.value
  tokenDigest := record.tokenDigest
  attemptNo := record.attemptNo.value
  leaseVersion := record.leaseVersion.value
  durationSeconds := record.duration.value
  acquiredAt := utc record.acquiredAt
  heartbeatAt := utc record.heartbeatAt
  leaseExpiresAt := utc record.leaseExpiresAt
  releasedAt := record.releasedAt.map utc
  recordFormatVersion := recordFormatVersion

def requireOptionalUtc (name : String) (value : Option ZonedDateTime) :
    Except PyError (Option DateTime) :=
  match value with
  | none => .ok none
  | some value => do
    let value ← requireUtc name value
    return some value

@[simp] theorem requireOptionalUtc_utc (name : String) (d : Option DateTime) :
    requireOptionalUtc name (d.map utc) = .ok d := by
  cases d <;> rfl

def decodeWorkerLease (record : WorkerLeaseMapping) : Except Failure WorkerLeaseRecord :=
  leaseCorrupted do
  require (record.recordFormatVersion == recordFormatVersion) (.valueError "unsupported record format")
  let tenantId ← Identifier.new record.tenantId
  let runId ← Identifier.new record.runId
  let workerId ← Identifier.new record.workerId
  let claimId ← LeaseClaimId.new record.claimId
  let attemptNo ← PositiveCounter.new record.attemptNo
  let leaseVersion ← PositiveCounter.new record.leaseVersion
  let duration ← LeaseDurationSeconds.new record.durationSeconds
  let acquiredAt ← requireUtc "acquired_at" record.acquiredAt
  let heartbeatAt ← requireUtc "heartbeat_at" record.heartbeatAt
  let leaseExpiresAt ← requireUtc "lease_expires_at" record.leaseExpiresAt
  let releasedAt ← requireOptionalUtc "released_at" record.releasedAt
  WorkerLeaseRecord.new {
    tenantId := tenantId
    runId := runId
    workerId := workerId
    claimId := claimId
    tokenDigest := record.tokenDigest
    attemptNo := attemptNo
    leaseVersion := leaseVersion
    duration := duration
    acquiredAt := acquiredAt
    heartbeatAt := heartbeatAt
    leaseExpiresAt := leaseExpiresAt
    releasedAt := releasedAt }

theorem decodeWorkerLease_encodeWorkerLease (record : WorkerLeaseRecord) :
    decodeWorkerLease (encodeWorkerLease record) = .ok record := by
  unfold decodeWorkerLease encodeWorkerLease
  simp only [beq_self_eq_true, require_true, bind, Except.bind, Identifier.new_value,
    LeaseClaimId.new_value, PositiveCounter.new_value, LeaseDurationSeconds.new_value, requireUtc_utc,
    requireOptionalUtc_utc]
  exact congrArg leaseCorrupted (construct_of_ok _ record.valid)

inductive StoredClaimOutcome where
  | claimed | noWork
  deriving DecidableEq

def StoredClaimOutcome.value : StoredClaimOutcome → String
  | .claimed => "claimed"
  | .noWork => "no_work"

def storedClaimOutcomes : List StoredClaimOutcome := [.claimed, .noWork]

@[simp] theorem enumOf_outcome (outcome : StoredClaimOutcome) :
    enumOf storedClaimOutcomes StoredClaimOutcome.value outcome.value = .ok outcome := by
  cases outcome <;> decide

structure WorkerLeaseClaimReceiptFields where
  tenantId : TenantId
  claimId : LeaseClaimId
  claimIssuedAt : DateTime
  replayExpiresAt : DateTime
  workerId : WorkerId
  duration : LeaseDurationSeconds
  intentFingerprint : String
  outcome : StoredClaimOutcome
  runId : Option RunId
  attemptNo : Option LeaseAttemptNo
  initialLeaseVersion : Option LeaseVersion
  leaseAcquiredAt : Option DateTime
  leaseExpiresAt : Option DateTime
  replayToken : Option LeaseToken
  createdAt : DateTime
  deriving DecidableEq

def hours24 : ℤ := 86400000000

/-- The result fields of a receipt: none of them, or all of them. -/
def WorkerLeaseClaimReceiptFields.checkResult (f : WorkerLeaseClaimReceiptFields) :
    Except PyError Unit :=
  match f.outcome with
  | .noWork =>
    require (f.runId.isNone && f.attemptNo.isNone && f.initialLeaseVersion.isNone &&
        f.leaseAcquiredAt.isNone && f.leaseExpiresAt.isNone && f.replayToken.isNone)
      (.valueError "no_work receipt cannot contain claim result fields")
  | .claimed => do
    require f.runId.isSome (.typeError "claimed receipt run_id must be RunId")
    require f.attemptNo.isSome (.typeError "claimed receipt attempt_no must be LeaseAttemptNo")
    require f.initialLeaseVersion.isSome
      (.typeError "claimed receipt initial_lease_version must be LeaseVersion")
    require f.replayToken.isSome (.typeError "claimed receipt replay_token must be LeaseToken")
    match f.leaseAcquiredAt, f.leaseExpiresAt with
    | some acquiredAt, some expiresAt =>
      require (!(expiresAt ≤ acquiredAt)) (.valueError "claimed receipt expiry must follow acquisition")
    | _, _ => .error (.valueError "claimed receipt timestamps must be complete")

def WorkerLeaseClaimReceiptFields.postInit (f : WorkerLeaseClaimReceiptFields) :
    Except PyError Unit := do
  let issuedAt ← claimIdIssuedAt f.claimId
  require (f.claimIssuedAt == issuedAt) (.valueError "claim_issued_at must match the UUIDv7 timestamp")
  let expiresAt ← f.claimIssuedAt.add hours24
  require (f.replayExpiresAt == expiresAt)
    (.valueError "replay_expires_at must be exactly 24 hours after issuance")
  require (matchesDigestPattern f.intentFingerprint)
    (.valueError "intent_fingerprint must be a SHA-256 digest")
  f.checkResult

structure WorkerLeaseClaimReceiptRecord extends WorkerLeaseClaimReceiptFields where
  valid : toWorkerLeaseClaimReceiptFields.postInit = .ok ()
  deriving DecidableEq

def WorkerLeaseClaimReceiptRecord.new (f : WorkerLeaseClaimReceiptFields) :
    Except PyError WorkerLeaseClaimReceiptRecord :=
  construct f.postInit fun valid => ⟨f, valid⟩

/-- The columns of `worker_lease_claim_receipts` besides its key. -/
structure ClaimReceiptColumns (τ : Type) where
  claimIssuedAt : τ
  replayExpiresAt : τ
  workerId : String
  durationSeconds : ℕ
  intentFormatVersion : ℕ
  intentFingerprint : String
  outcome : String
  runId : Option String
  attemptNo : Option ℕ
  initialLeaseVersion : Option ℕ
  leaseAcquiredAt : Option τ
  leaseExpiresAt : Option τ
  replayToken : Option (List UInt8)
  createdAt : τ
  recordFormatVersion : ℕ
  deriving DecidableEq

def ClaimReceiptColumns.map {τ σ : Type} (f : τ → σ) (columns : ClaimReceiptColumns τ) :
    ClaimReceiptColumns σ where
  claimIssuedAt := f columns.claimIssuedAt
  replayExpiresAt := f columns.replayExpiresAt
  workerId := columns.workerId
  durationSeconds := columns.durationSeconds
  intentFormatVersion := columns.intentFormatVersion
  intentFingerprint := columns.intentFingerprint
  outcome := columns.outcome
  runId := columns.runId
  attemptNo := columns.attemptNo
  initialLeaseVersion := columns.initialLeaseVersion
  leaseAcquiredAt := columns.leaseAcquiredAt.map f
  leaseExpiresAt := columns.leaseExpiresAt.map f
  replayToken := columns.replayToken
  createdAt := f columns.createdAt
  recordFormatVersion := columns.recordFormatVersion

structure ClaimReceiptMapping extends ClaimReceiptColumns ZonedDateTime where
  tenantId : String
  claimId : ℕ
  deriving DecidableEq

def encodeClaimReceipt (record : WorkerLeaseClaimReceiptRecord) : ClaimReceiptMapping where
  tenantId := record.tenantId.value
  claimId := record.claimId.value
  claimIssuedAt := utc record.claimIssuedAt
  replayExpiresAt := utc record.replayExpiresAt
  workerId := record.workerId.value
  durationSeconds := record.duration.value
  intentFormatVersion := claimIntentFormatVersion
  intentFingerprint := record.intentFingerprint
  outcome := record.outcome.value
  runId := record.runId.map (·.value)
  attemptNo := record.attemptNo.map (·.value)
  initialLeaseVersion := record.initialLeaseVersion.map (·.value)
  leaseAcquiredAt := record.leaseAcquiredAt.map utc
  leaseExpiresAt := record.leaseExpiresAt.map utc
  replayToken := record.replayToken.map (·.bytes)
  createdAt := utc record.createdAt
  recordFormatVersion := recordFormatVersion

/-- `Type(value) if value is not None else None`. -/
def optionalNew {α β : Type} (new : α → Except PyError β) : Option α → Except PyError (Option β)
  | none => .ok none
  | some a => do
    let b ← new a
    return some b

theorem optionalNew_map {α β : Type} {new : α → Except PyError β} {value : β → α}
    (h : ∀ b, new (value b) = .ok b) (b : Option β) : optionalNew new (b.map value) = .ok b := by
  cases b with
  | none => rfl
  | some b =>
    simp only [Option.map_some, optionalNew, h]
    rfl

def decodeClaimReceipt (record : ClaimReceiptMapping) : Except Failure WorkerLeaseClaimReceiptRecord :=
  leaseCorrupted do
  require (record.recordFormatVersion == recordFormatVersion) (.valueError "unsupported record format")
  require (record.intentFormatVersion == claimIntentFormatVersion) (.valueError "unsupported intent format")
  let tenantId ← Identifier.new record.tenantId
  let claimId ← LeaseClaimId.new record.claimId
  let workerId ← Identifier.new record.workerId
  let duration ← LeaseDurationSeconds.new record.durationSeconds
  let outcome ← enumOf storedClaimOutcomes StoredClaimOutcome.value record.outcome
  let runId ← optionalNew Identifier.new record.runId
  let attemptNo ← optionalNew PositiveCounter.new record.attemptNo
  let initialLeaseVersion ← optionalNew PositiveCounter.new record.initialLeaseVersion
  let replayToken ← optionalNew LeaseToken.new record.replayToken
  let claimIssuedAt ← requireUtc "claim_issued_at" record.claimIssuedAt
  let replayExpiresAt ← requireUtc "replay_expires_at" record.replayExpiresAt
  let createdAt ← requireUtc "created_at" record.createdAt
  let leaseAcquiredAt ← requireOptionalUtc "lease_acquired_at" record.leaseAcquiredAt
  let leaseExpiresAt ← requireOptionalUtc "lease_expires_at" record.leaseExpiresAt
  WorkerLeaseClaimReceiptRecord.new {
    tenantId := tenantId
    claimId := claimId
    claimIssuedAt := claimIssuedAt
    replayExpiresAt := replayExpiresAt
    workerId := workerId
    duration := duration
    intentFingerprint := record.intentFingerprint
    outcome := outcome
    runId := runId
    attemptNo := attemptNo
    initialLeaseVersion := initialLeaseVersion
    leaseAcquiredAt := leaseAcquiredAt
    leaseExpiresAt := leaseExpiresAt
    replayToken := replayToken
    createdAt := createdAt }

theorem decodeClaimReceipt_encodeClaimReceipt (record : WorkerLeaseClaimReceiptRecord) :
    decodeClaimReceipt (encodeClaimReceipt record) = .ok record := by
  unfold decodeClaimReceipt encodeClaimReceipt
  simp only [beq_self_eq_true, require_true, bind, Except.bind, Identifier.new_value,
    LeaseClaimId.new_value, LeaseDurationSeconds.new_value, requireUtc_utc, requireOptionalUtc_utc,
    enumOf_outcome, optionalNew_map Identifier.new_value, optionalNew_map PositiveCounter.new_value,
    optionalNew_map LeaseToken.new_bytes]
  exact congrArg leaseCorrupted (construct_of_ok _ record.valid)

def inactiveRunningReasons : List InactiveRunningReason := [.expired, .released]

@[simp] theorem enumOf_reason (reason : InactiveRunningReason) :
    enumOf inactiveRunningReasons InactiveRunningReason.value reason.value = .ok reason := by
  cases reason <;> decide

/-- The projection that `_inactive_running_select` delivers. -/
structure InactiveRunningMapping where
  tenantId : String
  runId : String
  attemptNo : ℕ
  leaseVersion : ℕ
  acquiredAt : ZonedDateTime
  heartbeatAt : ZonedDateTime
  authorityEndedAt : ZonedDateTime
  reason : String
  deriving DecidableEq

def decodeInactiveRunning (record : InactiveRunningMapping) : Except Failure InactiveRunningLease :=
  leaseCorrupted do
  let tenantId ← Identifier.new record.tenantId
  let runId ← Identifier.new record.runId
  let attemptNo ← PositiveCounter.new record.attemptNo
  let leaseVersion ← PositiveCounter.new record.leaseVersion
  let reason ← enumOf inactiveRunningReasons InactiveRunningReason.value record.reason
  let acquiredAt ← requireUtc "acquired_at" record.acquiredAt
  let heartbeatAt ← requireUtc "heartbeat_at" record.heartbeatAt
  let authorityEndedAt ← requireUtc "authority_ended_at" record.authorityEndedAt
  InactiveRunningLease.new {
    tenantId := tenantId
    runId := runId
    attemptNo := attemptNo
    leaseVersion := leaseVersion
    acquiredAt := acquiredAt
    heartbeatAt := heartbeatAt
    authorityEndedAt := authorityEndedAt
    reason := reason }

end Zhiyi
