import Zhiyi.Postgres.Database

set_option autoImplicit false

/-! Atomic PostgreSQL RunRepository with receipt-first command arbitration. A
transaction that raises is rolled back. -/
namespace Zhiyi
open Python

/-- `_COMMAND_EVENT_TYPES`. -/
def commandEventType : CommandType → RunEventType
  | .createRun => .runCreated
  | .startRun => .runStarted
  | .waitForApproval => .runWaitingApproval
  | .waitForResolution => .runWaitingResolution
  | .resumeRun => .runResumed
  | .consumeBudget => .runBudgetConsumed
  | .succeedRun => .runSucceeded
  | .failRun => .runFailed
  | .cancelRun => .runCancelled
  | .enforceDeadline => .runLimitExceeded

def validateReplayEvent (receipt : CommandReceipt) (event : RunEvent) : Except Failure Unit :=
  require (event.type == commandEventType receipt.commandType &&
      event.sequence == receipt.resultingVersion &&
      event.payload.get? "status" == some (.str receipt.resultingStatus.value) &&
      event.payload.get? "run_version" == some (.int receipt.resultingVersion))
    (.repository .dataCorruption)

namespace Database

def load (db : Database) (tenantId : TenantId) (runId : RunId) : Except Failure (Option Run) :=
  match db.selectRun tenantId runId with
  | none => .ok none
  | some record => do
    let run ← decodeRun record
    return some run

/-- The text of a timestamp inside a JSON document, without trailing zeros. -/
def jsonTimestamp (d : DateTime) : String :=
  let digits := ((DateTime.padded 6 d.fraction).reverse.dropWhile (· = '0')).reverse
  String.ofList (d.isoSeconds ++ (if digits = [] then [] else '.' :: digits) ++ "+00:00".toList)

/-- `(sequence_digits, sequence_value)`. -/
def sequenceKey (row : EventRow) : ℕ ×ₗ String := toLex (row.sequenceDigits, row.sequenceValue)

/-- `_EVENT_PAGE_SELECT`. -/
def eventPage (db : Database) (tenantId : TenantId) (runId : RunId) (cursor : String) (limit : ℕ) :
    List EventRecord :=
  let after := (db.eventsOf tenantId runId).filter fun p =>
    decide (toLex (cursor.length, cursor) < sequenceKey p.2)
  let ordered := after.insertionSort fun p q => sequenceKey p.2 ≤ sequenceKey q.2
  (ordered.take limit).map fun p => p.2.recordAt p.1 (.text (jsonTimestamp p.2.occurredAt))

def listEvents (db : Database) (tenantId : TenantId) (runId : RunId) (afterSequence limit : ℕ) :
    Except Failure (List RunEvent) := do
  require (1 ≤ limit && limit ≤ 1000) (.python (.valueError "limit must be between 1 and 1000"))
  let page := db.eventPage tenantId runId (encodeCanonicalInteger afterSequence) limit
  require (!page.isEmpty || db.hasRun tenantId runId) (.lifecycle .notFound)
  page.mapM decodeEvent

def replayEvents (db : Database) (receipt : CommandReceipt) : Except Failure (List RunEvent) :=
  match receipt.eventIds.head? with
  | none => .ok []
  | some eventId =>
    match db.selectEvent eventId receipt.tenantId receipt.runId with
    | none => .error (.repository .dataCorruption)
    | some record => do
      let event ← decodeEvent record
      validateReplayEvent receipt event
      return [event]

/-- `_find_command`. -/
def replayCommand (db : Database) (tenantId : TenantId) (commandId : CommandId)
    (intentFingerprint : String) : Except Failure (Option CommitOutcome) :=
  match db.selectReceipt tenantId commandId with
  | none => .ok none
  | some record => do
    let receipt ← decodeReceipt record
    require (receipt.intentFingerprint == intentFingerprint) (.lifecycle .idempotencyConflict)
    let events ← db.replayEvents receipt
    let outcome ← raising (CommitOutcome.new receipt events true)
    return some outcome

def findCommand (db : Database) (tenantId : TenantId) (commandId : CommandId)
    (intentFingerprint : String) : Except Failure (Option CommitOutcome) := do
  require (matchesDigestPattern intentFingerprint)
    (.python (.valueError "intent_fingerprint must be a SHA-256 digest"))
  db.replayCommand tenantId commandId intentFingerprint

def validateCommitInput (c : Candidate) : Except Failure Unit :=
  require (c.newEvents.length ≤ 1 && c.receipt.eventIds.length ≤ 1) invariantViolation

/-- The replay of a command whose receipt is already there. -/
def replayReceipt (db : Database) (receipt : CommandReceipt) :
    Except Raised (Database × CommitOutcome) := do
  let replay ← raised (db.replayCommand receipt.tenantId receipt.commandId receipt.intentFingerprint)
  match replay with
  | none => .error (.failure (.repository .dataCorruption))
  | some outcome => return (db, outcome)

def isStructuralCreate (c : Candidate) : Bool :=
  c.expectedVersion == 0 && c.updatedRun.version == 1 && c.newEvents.length == 1

/-- The row that a commit finds: none is looked up for a creation. -/
def loadCurrent (db : Database) (c : Candidate) : Except Failure (Option Run) :=
  if isStructuralCreate c then .ok none else db.load c.updatedRun.tenantId c.updatedRun.runId

def writeRun (db : Database) (c : Candidate) (current : Option Run) : Except Raised Database :=
  match current with
  | none => db.insertRun c.updatedRun
  | some _ => if c.newEvents.isEmpty then .ok db else db.updateRun c.updatedRun

def write (db : Database) (c : Candidate) (current : Option Run) :
    Except Raised (Database × CommitOutcome) := do
  let db ← db.writeRun c current
  let db ← c.newEvents.foldlM insertEvent db
  db.checkReceiptKeys c.receipt
  let outcome ← raised (raising (CommitOutcome.new c.receipt c.newEvents false))
  return (db, outcome)

/-- The transaction of `commit`. -/
def commitTransaction (db : Database) (c : Candidate) (record : ReceiptRecord) :
    Except Raised (Database × CommitOutcome) :=
  match db.insertReceipt c.receipt record with
  | none => db.replayReceipt c.receipt
  | some db => do
    let current ← raised (db.loadCurrent c)
    require (((current.map (·.version)).getD 0) == c.expectedVersion)
      (.failure (.lifecycle .versionConflict))
    raised (validateCommitCandidate c current fun _ => false)
    db.write c current

/-- How `commit` reports what its transaction raised. -/
def commitFailure : Raised → Failure
  | .failure failure => failure
  | .integrity name => .lifecycle (if name = "pk_runs" then .versionConflict else .invariantViolation)

/-- The database afterwards, and what the caller gets. -/
def settle {α : Type} (db : Database) (toFailure : Raised → Failure) (x : Except Raised (Database × α)) :
    Database × Except Failure α :=
  match x with
  | .ok (next, a) => (next, .ok a)
  | .error e => (db, .error (toFailure e))

def commit (db : Database) (c : Candidate) : Database × Except Failure CommitOutcome :=
  db.settle commitFailure do
    raised (validateCommitInput c)
    let record ← raised (raising (encodeReceipt c.receipt))
    db.commitTransaction c record

/-- `_load_guarded_lease`, and the other reads of one lease row. -/
def loadLease (db : Database) (tenantId : TenantId) (runId : RunId) :
    Except Failure (Option WorkerLeaseRecord) :=
  match db.workerLeases.get? (rowKey tenantId runId) with
  | none => .ok none
  | some row => do
    let lease ← decodeWorkerLease (row.mapping tenantId runId)
    return some lease

/-- `run_status not in {"queued", "running"}`, negated. -/
def isOwnable (runStatus : String) : Bool := runStatus == "queued" || runStatus == "running"

def validateCurrentLease (proof : LeaseAuthorityProof) (lease : Option WorkerLeaseRecord)
    (runStatus : String) (platformNow : DateTime) : Except Failure Unit :=
  match lease with
  | none => .error (.lease .leaseNotCurrent)
  | some lease => do
    require (lease.tenantId == proof.tenantId && lease.runId == proof.runId &&
        lease.workerId == proof.workerId && lease.claimId == proof.claimId &&
        lease.attemptNo == proof.attemptNo && leaseTokenMatches proof.token lease.tokenDigest &&
        lease.releasedAt.isNone && isOwnable runStatus) (.lease .leaseNotCurrent)
    require (!(lease.leaseExpiresAt ≤ platformNow)) (.lease .leaseExpired)

/-- The transaction of `commit_with_lease` once its receipt is inserted. -/
def guardedWrite (db : Database) (proof : LeaseAuthorityProof) (platformNow : DateTime) (c : Candidate) :
    Except Raised (Database × CommitOutcome) := do
  let current ← raised (db.load c.updatedRun.tenantId c.updatedRun.runId)
  match current with
  | none => .error (.failure (.lease .leaseNotCurrent))
  | some current =>
    let lease ← raised (db.loadLease proof.tenantId proof.runId)
    raised (validateCurrentLease proof lease current.status.value platformNow)
    require (current.version == c.expectedVersion) (.failure (.lifecycle .versionConflict))
    raised (validateCommitCandidate c (some current) fun _ => false)
    db.write c (some current)

/-- `_commit_with_lease_transaction`, which reads the clock once. -/
def commitWithLeaseTransaction (db : Database) (proof : LeaseAuthorityProof) (platformNow : DateTime)
    (c : Candidate) (record : ReceiptRecord) : Except Raised (Database × CommitOutcome) :=
  match db.insertReceipt c.receipt record with
  | none => db.replayReceipt c.receipt
  | some db => db.guardedWrite proof platformNow c

def guardedFailure : Raised → Failure
  | .failure failure => failure
  | .integrity _ => invariantViolation

def commitWithLease (db : Database) (proof : LeaseAuthorityProof) (platformNow : DateTime)
    (c : Candidate) : Database × Except Failure CommitOutcome :=
  db.settle guardedFailure do
    raised (validateCommitInput c)
    require (proof.tenantId == c.updatedRun.tenantId && proof.runId == c.updatedRun.runId &&
      c.receipt.tenantId == proof.tenantId && c.receipt.runId == proof.runId)
      (.failure (.lease .invalidInput))
    let record ← raised (raising (encodeReceipt c.receipt))
    db.commitWithLeaseTransaction proof platformNow c record

end Database
end Zhiyi
