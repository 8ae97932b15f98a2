import Mathlib.Data.Prod.Lex
import Zhiyi.Postgres.LeaseCodecs

set_option autoImplicit false

/-! The tables behind the PostgreSQL repositories. A row lists its columns besides
its primary key, and the columns that hold identifiers hold identifiers. Two things
are assumed of the server: sessions run in UTC, and text keys are compared by code
point, as the `C` collation does. -/
namespace Zhiyi
open Python

/-- What a transaction raises: an exception of the code, or the violation of a named
    constraint. -/
inductive Raised where
  | failure (failure : Failure)
  | integrity (constraintName : String)
  deriving DecidableEq

def raised {α : Type} (x : Except Failure α) : Except Raised α := x.mapError .failure

structure RunRow where
  taskId : String
  agentId : String
  agentVersionId : String
  agentBuildDigest : String
  runStatus : String
  runVersion : String
  nextEventSequence : String
  createdAt : DateTime
  updatedAt : DateTime
  lastObservedAt : DateTime
  snapshotFormatVersion : ℕ
  snapshot : String
  deriving DecidableEq

/-- The row that `_insert_run` and `_update_run` store. -/
def Run.row (run : Run) : RunRow :=
  let record := encodeRun run
  { taskId := record.taskId
    agentId := record.agentId
    agentVersionId := record.agentVersionId
    agentBuildDigest := record.agentBuildDigest
    runStatus := record.runStatus
    runVersion := record.runVersion
    nextEventSequence := record.nextEventSequence
    createdAt := record.createdAt.instant
    updatedAt := record.updatedAt.instant
    lastObservedAt := record.lastObservedAt.instant
    snapshotFormatVersion := record.snapshotFormatVersion
    snapshot := record.snapshot }

/-- `_run_select`. -/
def RunRow.record (row : RunRow) (tenantId : TenantId) (runId : RunId) : RunRecord where
  recordFormatVersion := recordFormatVersion
  tenantId := tenantId.value
  runId := runId.value
  taskId := row.taskId
  agentId := row.agentId
  agentVersionId := row.agentVersionId
  agentBuildDigest := row.agentBuildDigest
  runStatus := row.runStatus
  runVersion := row.runVersion
  nextEventSequence := row.nextEventSequence
  createdAt := utc row.createdAt
  updatedAt := utc row.updatedAt
  lastObservedAt := utc row.lastObservedAt
  snapshotFormatVersion := row.snapshotFormatVersion
  snapshot := row.snapshot

@[simp] theorem Run.record_row (run : Run) : run.row.record run.tenantId run.runId = encodeRun run := rfl

structure EventRow where
  tenantId : TenantId
  runId : RunId
  sequenceValue : String
  eventType : String
  occurredAt : DateTime
  payloadVersion : ℕ
  recordFormatVersion : ℕ
  payload : String
  deriving DecidableEq

/-- The row that `_insert_event` stores. -/
def RunEvent.row (event : RunEvent) : EventRow :=
  let record := encodeEvent event
  { tenantId := event.tenantId
    runId := event.runId
    sequenceValue := record.sequenceValue
    eventType := record.eventType
    occurredAt := event.occurredAt
    payloadVersion := record.payloadVersion
    recordFormatVersion := record.recordFormatVersion
    payload := record.payload }

/-- The computed column `char_length(sequence_value)`. -/
def EventRow.sequenceDigits (row : EventRow) : ℕ := row.sequenceValue.length

def EventRow.recordAt (row : EventRow) (eventId : EventId) (occurredAt : TimestampValue) :
    EventRecord where
  recordFormatVersion := row.recordFormatVersion
  eventId := eventId.value
  tenantId := row.tenantId.value
  runId := row.runId.value
  sequenceValue := row.sequenceValue
  eventType := row.eventType
  occurredAt := occurredAt
  payloadVersion := row.payloadVersion
  payload := row.payload

/-- `_event_select`. -/
def EventRow.record (row : EventRow) (eventId : EventId) : EventRecord :=
  row.recordAt eventId (.datetime (utc row.occurredAt))

@[simp] theorem RunEvent.record_row (event : RunEvent) :
    event.row.record event.eventId = encodeEvent event := rfl

structure CommandReceiptRow where
  runId : RunId
  commandType : String
  intentFingerprint : String
  resultingStatus : String
  resultingVersion : String
  eventId : Option EventId
  createdAt : DateTime
  recordFormatVersion : ℕ
  deriving DecidableEq

/-- The row that `_insert_receipt` stores for an encoded receipt. -/
def CommandReceipt.row (receipt : CommandReceipt) (record : ReceiptRecord) : CommandReceiptRow where
  runId := receipt.runId
  commandType := record.commandType
  intentFingerprint := record.intentFingerprint
  resultingStatus := record.resultingStatus
  resultingVersion := record.resultingVersion
  eventId := receipt.eventIds.head?
  createdAt := record.createdAt.instant
  recordFormatVersion := record.recordFormatVersion

/-- `_receipt_select`. -/
def CommandReceiptRow.record (row : CommandReceiptRow) (tenantId : TenantId) (commandId : CommandId) :
    ReceiptRecord where
  recordFormatVersion := row.recordFormatVersion
  tenantId := tenantId.value
  commandId := commandId.value
  runId := row.runId.value
  commandType := row.commandType
  intentFingerprint := row.intentFingerprint
  resultingStatus := row.resultingStatus
  resultingVersion := row.resultingVersion
  eventId := row.eventId.map (·.value)
  createdAt := utc row.createdAt

theorem CommandReceipt.record_row {receipt : CommandReceipt} {record : ReceiptRecord}
    (h : encodeReceipt receipt = .ok record) :
    (receipt.row record).record receipt.tenantId receipt.commandId = record := by
  obtain ⟨_, -, hrecord⟩ := bind_eq_ok.mp h
  cases Except.ok.inj hrecord
  rfl

/-- The CHECK constraints and column types of `worker_leases`. -/
def WorkerLeaseColumns.checks (columns : WorkerLeaseColumns DateTime) : Bool :=
  matchesIdentifierPattern columns.workerId && (LeaseClaimId.new columns.claimId).isOk &&
    columns.tokenDigest.length == 32 && (PositiveCounter.new columns.attemptNo).isOk &&
    (PositiveCounter.new columns.leaseVersion).isOk &&
    (LeaseDurationSeconds.new columns.durationSeconds).isOk &&
    decide (columns.acquiredAt ≤ columns.heartbeatAt) &&
    decide (columns.heartbeatAt < columns.leaseExpiresAt) &&
    columns.releasedAt.all (columns.acquiredAt ≤ ·) && columns.recordFormatVersion == Zhiyi.recordFormatVersion

structure WorkerLeaseRow extends WorkerLeaseColumns DateTime where
  valid : toWorkerLeaseColumns.checks = true
  deriving DecidableEq

/-- `_lease_select`. -/
def WorkerLeaseRow.mapping (row : WorkerLeaseRow) (tenantId : TenantId) (runId : RunId) :
    WorkerLeaseMapping where
  toWorkerLeaseColumns := row.toWorkerLeaseColumns.map utc
  tenantId := tenantId.value
  runId := runId.value

/-- `COALESCE(released_at, lease_expires_at)`. -/
def WorkerLeaseRow.authorityEndedAt (row : WorkerLeaseRow) : DateTime :=
  row.releasedAt.getD row.leaseExpiresAt

/-- The CHECK constraints of `worker_lease_claim_receipts`, for a claim id of its key. -/
def ClaimReceiptColumns.checks (columns : ClaimReceiptColumns DateTime) (claimId : ℕ) : Bool :=
  (LeaseClaimId.new claimId).isOk &&
    columns.claimIssuedAt.micros == (claimId >>> 80 : ℕ) * 1000 &&
    columns.replayExpiresAt.micros == columns.claimIssuedAt.micros + hours24 &&
    matchesIdentifierPattern columns.workerId &&
    (LeaseDurationSeconds.new columns.durationSeconds).isOk &&
    columns.intentFormatVersion == claimIntentFormatVersion &&
    matchesDigestPattern columns.intentFingerprint &&
    columns.attemptNo.all (fun n => (PositiveCounter.new n).isOk) &&
    columns.initialLeaseVersion.all (fun n => (PositiveCounter.new n).isOk) &&
    columns.replayToken.all (fun bytes => bytes.length == leaseTokenBytes) &&
    (if columns.outcome == StoredClaimOutcome.noWork.value then
      columns.runId.isNone && columns.attemptNo.isNone && columns.initialLeaseVersion.isNone &&
        columns.leaseAcquiredAt.isNone && columns.leaseExpiresAt.isNone && columns.replayToken.isNone
    else
      columns.outcome == StoredClaimOutcome.claimed.value && columns.runId.isSome &&
        columns.attemptNo.isSome && columns.initialLeaseVersion.isSome && columns.replayToken.isSome &&
        match columns.leaseAcquiredAt, columns.leaseExpiresAt with
        | some acquiredAt, some expiresAt => decide (acquiredAt < expiresAt)
        | _, _ => false) &&
    columns.recordFormatVersion == Zhiyi.recordFormatVersion

abbrev RunRowKey := TenantId ×ₗ RunId
abbrev ReceiptRowKey := TenantId ×ₗ CommandId
abbrev ClaimRowKey := TenantId ×ₗ ℕ

def rowKey (tenantId : TenantId) (runId : RunId) : RunRowKey := toLex (tenantId, runId)

def receiptRowKey (tenantId : TenantId) (commandId : CommandId) : ReceiptRowKey :=
  toLex (tenantId, commandId)

def claimRowKey (tenantId : TenantId) (claimId : LeaseClaimId) : ClaimRowKey :=
  toLex (tenantId, claimId.value)

@[simp] theorem rowKey_inj {t u : TenantId} {r s : RunId} : rowKey t r = rowKey u s ↔ t = u ∧ r = s := by
  simp [rowKey]

@[simp] theorem receiptRowKey_inj {t u : TenantId} {i j : CommandId} :
    receiptRowKey t i = receiptRowKey u j ↔ t = u ∧ i = j := by
  simp [receiptRowKey]

@[simp] theorem claimRowKey_inj {t u : TenantId} {i j : LeaseClaimId} :
    claimRowKey t i = claimRowKey u j ↔ t = u ∧ i = j := by
  simp [claimRowKey, LeaseClaimId.value_injective.eq_iff]

structure Database where
  runs : Dict RunRowKey RunRow
  runEvents : Dict EventId EventRow
  runCommandReceipts : Dict ReceiptRowKey CommandReceiptRow
  workerLeases : Dict RunRowKey WorkerLeaseRow
  workerLeaseClaimReceipts : Dict ClaimRowKey (ClaimReceiptColumns DateTime)

namespace Database

def empty : Database := ⟨Dict.empty, Dict.empty, Dict.empty, Dict.empty, Dict.empty⟩

def selectRun (db : Database) (tenantId : TenantId) (runId : RunId) : Option RunRecord :=
  (db.runs.get? (rowKey tenantId runId)).map fun row => row.record tenantId runId

def selectReceipt (db : Database) (tenantId : TenantId) (commandId : CommandId) :
    Option ReceiptRecord :=
  (db.runCommandReceipts.get? (receiptRowKey tenantId commandId)).map fun row =>
    row.record tenantId commandId

/-- The event of this id, if it is one of this run. -/
def selectEvent (db : Database) (eventId : EventId) (tenantId : TenantId) (runId : RunId) :
    Option EventRecord :=
  match db.runEvents.get? eventId with
  | some row => if row.tenantId = tenantId ∧ row.runId = runId then some (row.record eventId) else none
  | none => none

def hasRun (db : Database) (tenantId : TenantId) (runId : RunId) : Bool :=
  (db.runs.get? (rowKey tenantId runId)).isSome

/-- `_insert_receipt`: nothing when the primary key is taken. -/
def insertReceipt (db : Database) (receipt : CommandReceipt) (record : ReceiptRecord) :
    Option Database :=
  let key := receiptRowKey receipt.tenantId receipt.commandId
  match db.runCommandReceipts.get? key with
  | some _ => none
  | none =>
    some { db with runCommandReceipts := db.runCommandReceipts.insert key (receipt.row record) }

def putRun (db : Database) (run : Run) : Database :=
  { db with runs := db.runs.insert (rowKey run.tenantId run.runId) run.row }

def insertRun (db : Database) (run : Run) : Except Raised Database := do
  require (!db.hasRun run.tenantId run.runId) (.integrity "pk_runs")
  return db.putRun run

def updateRun (db : Database) (run : Run) : Except Raised Database := do
  require (db.hasRun run.tenantId run.runId) (.failure (.repository .dataCorruption))
  return db.putRun run

def eventsOf (db : Database) (tenantId : TenantId) (runId : RunId) : List (EventId × EventRow) :=
  db.runEvents.items.filter fun p => p.2.tenantId == tenantId && p.2.runId == runId

/-- `_insert_event`, under the primary key, the unique sequence of a run and the foreign
    key to `runs`. -/
def insertEvent (db : Database) (event : RunEvent) : Except Raised Database := do
  require (db.runEvents.get? event.eventId).isNone (.integrity "pk_run_events")
  require ((db.eventsOf event.tenantId event.runId).all fun p =>
      p.2.sequenceValue != event.row.sequenceValue) (.integrity "uq_run_events_tenant_run_sequence")
  require (db.hasRun event.tenantId event.runId) (.integrity "fk_run_events_tenant_run_runs")
  return { db with runEvents := db.runEvents.insert event.eventId event.row }

/-- The deferred foreign keys of a receipt, checked at commit. -/
def checkReceiptKeys (db : Database) (receipt : CommandReceipt) : Except Raised Unit := do
  require (db.hasRun receipt.tenantId receipt.runId) (.integrity "fk_run_command_receipts_tenant_run_runs")
  require (receipt.eventIds.all fun eventId =>
      (db.selectEvent eventId receipt.tenantId receipt.runId).isSome)
    (.integrity "fk_run_command_receipts_event_tenant_run_events")

end Database
end Zhiyi
