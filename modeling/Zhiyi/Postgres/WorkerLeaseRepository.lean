import Zhiyi.Postgres.RunRepository

set_option autoImplicit false

/-! Claim receipts and lease ownership in one transaction each. The readings of the
database clock are arguments; a claim reads the clock as often as its loop runs, and
gets no outcome when the readings it is given run out. -/
namespace Zhiyi
open Python

/-- Forty-eight bits of milliseconds, exactly. -/
def LeaseClaimId.milliseconds (claimId : LeaseClaimId) : ℕ := claimId.value >>> 80

def validateClaimAge (claimId : LeaseClaimId) (platformNow : DateTime) : Except Failure Unit := do
  let issuedAt ← raising (claimIdIssuedAt claimId)
  let latest ← raising (platformNow.add (60 * DateTime.second))
  require (!(latest < issuedAt)) (.lease .invalidInput)
  let expiresAt ← raising (issuedAt.add hours24)
  require (!(expiresAt ≤ platformNow)) (.lease .idempotencyExpired)

/-- What ends a claim transaction early: an exception, or `_ClaimRaceLost`. -/
inductive ClaimRaised where
  | raised (e : Raised)
  | raceLost
  deriving DecidableEq

def claiming {α : Type} (x : Except Failure α) : Except ClaimRaised α :=
  x.mapError fun e => .raised (.failure e)

namespace WorkerLeaseRecord

/-- `_proof_matches`. -/
def matchesProof (lease : WorkerLeaseRecord) (proof : LeaseAuthorityProof) : Bool :=
  lease.tenantId == proof.tenantId && lease.runId == proof.runId &&
    lease.workerId == proof.workerId && lease.claimId == proof.claimId &&
    lease.attemptNo == proof.attemptNo && leaseTokenMatches proof.token lease.tokenDigest

theorem ordered (lease : WorkerLeaseRecord) :
    lease.acquiredAt ≤ lease.heartbeatAt ∧ lease.heartbeatAt < lease.leaseExpiresAt ∧
      lease.tokenDigest.length = 32 ∧
      ∀ releasedAt, lease.releasedAt = some releasedAt → lease.acquiredAt ≤ releasedAt := by
  obtain ⟨_, hdigest, h⟩ := bind_eq_ok.mp lease.valid
  obtain ⟨_, hheartbeat, h⟩ := bind_eq_ok.mp h
  obtain ⟨_, hexpires, hreleased⟩ := bind_eq_ok.mp h
  simp only [require_eq_ok, Bool.not_eq_true', decide_eq_false_iff_not, not_lt, not_le,
    beq_iff_eq] at hdigest hheartbeat hexpires hreleased
  refine ⟨hheartbeat, hexpires, hdigest, fun releasedAt hr => ?_⟩
  simpa [hr] using hreleased

def metadata (lease : WorkerLeaseRecord) : LeaseMetadata where
  leaseVersion := lease.leaseVersion
  acquiredAt := lease.acquiredAt
  heartbeatAt := lease.heartbeatAt
  leaseExpiresAt := lease.leaseExpiresAt
  ordered := ⟨lease.ordered.1, lease.ordered.2.1.le⟩

end WorkerLeaseRecord

def evaluateAuthority (proof : LeaseAuthorityProof) (lease : Option WorkerLeaseRecord)
    (runStatus : Option String) (platformNow : DateTime) : LeaseAuthority :=
  match lease with
  | none => .notCurrent
  | some lease =>
    if !lease.matchesProof proof then .notCurrent
    else if lease.releasedAt.isSome || !(runStatus.any Database.isOwnable) then
      .matchedNotCurrent lease.metadata
    else if lease.leaseExpiresAt ≤ platformNow then .expired lease.metadata
    else .current lease.metadata

namespace Database

/-- `_load_authority_state`: the lease and the status of its run, through one join. -/
def loadAuthorityState (db : Database) (proof : LeaseAuthorityProof) :
    Except Failure (Option WorkerLeaseRecord × Option String) :=
  let key := rowKey proof.tenantId proof.runId
  match db.workerLeases.get? key, db.runs.get? key with
  | some row, some run => do
    let lease ← decodeWorkerLease (row.mapping proof.tenantId proof.runId)
    return (some lease, some run.runStatus)
  | _, _ => .ok (none, none)

def getAuthority (db : Database) (proof : LeaseAuthorityProof) (platformNow : DateTime) :
    Except Failure LeaseAuthority := do
  let (lease, runStatus) ← db.loadAuthorityState proof
  return evaluateAuthority proof lease runStatus platformNow

/-- `_inactive_running_select`, of one lease row. -/
def inactiveRunning (tenantId : TenantId) (runId : RunId) (row : WorkerLeaseRow) :
    InactiveRunningMapping where
  tenantId := tenantId.value
  runId := runId.value
  attemptNo := row.attemptNo
  leaseVersion := row.leaseVersion
  acquiredAt := utc row.acquiredAt
  heartbeatAt := utc row.heartbeatAt
  authorityEndedAt := utc row.authorityEndedAt
  reason := if row.releasedAt.isSome then "released" else "expired"

def isRunning (db : Database) (key : RunRowKey) : Bool :=
  (db.runs.get? key).any fun run => run.runStatus == "running"

def getInactiveRunning (db : Database) (tenantId : TenantId) (runId : RunId) (asOf : DateTime) :
    Except Failure (Option InactiveRunningLease) :=
  match db.workerLeases.get? (rowKey tenantId runId) with
  | none => .ok none
  | some row =>
    if db.isRunning (rowKey tenantId runId) && row.authorityEndedAt ≤ asOf then do
      let lease ← decodeInactiveRunning (inactiveRunning tenantId runId row)
      return some lease
    else .ok none

/-- The keys of `_inactive_running_select` in their order. -/
abbrev InactiveKey := DateTime ×ₗ RunId

def inactiveKey (p : RunRowKey × WorkerLeaseRow) : InactiveKey :=
  toLex (p.2.authorityEndedAt, (ofLex p.1).2)

def inactiveRows (db : Database) (tenantId : TenantId) (asOf : DateTime)
    (cursor : Option InactiveRunningCursor) (limit : ℕ) : List (RunRowKey × WorkerLeaseRow) :=
  let inactive := db.workerLeases.items.filter fun p =>
    db.isRunning p.1 && (ofLex p.1).1 == tenantId && p.2.authorityEndedAt ≤ asOf &&
      cursor.all fun c => decide (toLex (c.lastAuthorityEndedAt, c.lastRunId) < inactiveKey p)
  (inactive.insertionSort fun p q => inactiveKey p ≤ inactiveKey q).take (limit + 1)

/-- `list_inactive_running`. The clock is read for the first page only. -/
def listInactiveRunning (db : Database) (tenantId : TenantId) (cursor : Option InactiveRunningCursor)
    (limit : ℕ) (platformNow : DateTime) : Except Failure InactiveRunningPage := do
  require (cursor.all (·.tenantId == tenantId) && 1 ≤ limit && limit ≤ 1000) (.lease .invalidInput)
  let asOf := (cursor.map (·.asOf)).getD platformNow
  let decoded ← (db.inactiveRows tenantId asOf cursor limit).mapM fun p =>
    decodeInactiveRunning (inactiveRunning tenantId (ofLex p.1).2 p.2)
  let items := decoded.take limit
  match items.getLast? with
  | none => return ⟨items, none⟩
  | some last =>
    if limit < decoded.length then
      let next ← raising (InactiveRunningCursor.new tenantId asOf last.authorityEndedAt last.runId)
      return ⟨items, some next⟩
    else return ⟨items, none⟩

/-- The stored row of a lease mutation, under the CHECK constraints. -/
def checkedRow (columns : WorkerLeaseColumns DateTime) : Except Raised WorkerLeaseRow :=
  if h : columns.checks = true then .ok ⟨columns, h⟩ else .error (.integrity "ck_worker_leases")

def putLease (db : Database) (tenantId : TenantId) (runId : RunId) (row : WorkerLeaseRow) : Database :=
  { db with workerLeases := db.workerLeases.insert (rowKey tenantId runId) row }

/-- The conditional UPDATE of a renewal or release: one row, or corrupt data. -/
def updateLease (db : Database) (proof : LeaseAuthorityProof) (leaseVersion : LeaseVersion)
    (change : WorkerLeaseColumns DateTime → WorkerLeaseColumns DateTime) : Except Raised Database :=
  match db.workerLeases.get? (rowKey proof.tenantId proof.runId) with
  | none => .error (.failure (.lease .dataCorruption))
  | some row => do
    require (row.leaseVersion == leaseVersion.value) (.failure (.lease .dataCorruption))
    let row ← checkedRow (change row.toWorkerLeaseColumns)
    return db.putLease proof.tenantId proof.runId row

def notApplied (authority : LeaseAuthority) : ConditionalLeaseOutcome := ⟨false, authority, none⟩

def renewMatched (db : Database) (command : RenewLeaseCommand) (lease : WorkerLeaseRecord)
    (authority : LeaseAuthority) (platformNow : DateTime) :
    Except Raised (Database × ConditionalLeaseOutcome) :=
  if !authority.authoritative || command.expectedVersion != lease.leaseVersion then
    .ok (db, notApplied authority)
  else do
    let nextVersion ← raised (raising lease.leaseVersion.next)
    let leaseExpiresAt ← raised (raising (platformNow.add command.duration.micros))
    let db ← db.updateLease command.proof lease.leaseVersion fun columns =>
      { columns with
        durationSeconds := command.duration.value
        leaseVersion := nextVersion.value
        heartbeatAt := platformNow
        leaseExpiresAt := leaseExpiresAt }
    let metadata ← raised (raising (LeaseMetadata.new nextVersion lease.acquiredAt platformNow leaseExpiresAt))
    let renewBy ← raised (raising (renewByAt platformNow command.duration))
    return (db, ⟨true, .current metadata, some renewBy⟩)

/-- The release of a lease whose proof matches. Under a run that is neither queued nor
    running, the lease need not be authoritative. -/
def releaseMatched (db : Database) (command : ReleaseLeaseCommand) (lease : WorkerLeaseRecord)
    (authority : LeaseAuthority) (runStatus : String) (platformNow : DateTime) :
    Except Raised (Database × ConditionalLeaseOutcome) :=
  if lease.releasedAt.isSome then .ok (db, notApplied (.matchedNotCurrent lease.metadata))
  else if command.expectedVersion != lease.leaseVersion ||
      (isOwnable runStatus && !authority.authoritative) then
    .ok (db, notApplied authority)
  else do
    let nextVersion ← raised (raising lease.leaseVersion.next)
    let db ← db.updateLease command.proof lease.leaseVersion fun columns =>
      { columns with leaseVersion := nextVersion.value, releasedAt := some platformNow }
    let released ← raised (raising (WorkerLeaseRecord.new { lease.toWorkerLeaseFields with
      leaseVersion := nextVersion
      releasedAt := some platformNow }))
    return (db, ⟨true, .matchedNotCurrent released.metadata, none⟩)

/-- `_conditional_mutation`, up to the part that depends on the operation. -/
def conditionalMutation (db : Database) (proof : LeaseAuthorityProof) (platformNow : DateTime)
    (matched : WorkerLeaseRecord → LeaseAuthority → String →
      Except Raised (Database × ConditionalLeaseOutcome)) :
    Except Raised (Database × ConditionalLeaseOutcome) :=
  match db.runs.get? (rowKey proof.tenantId proof.runId) with
  | none => .ok (db, notApplied .notCurrent)
  | some run => do
    let (lease, joinedStatus) ← raised (db.loadAuthorityState proof)
    require (joinedStatus == some run.runStatus) (.failure (.lease .dataCorruption))
    let authority := evaluateAuthority proof lease (some run.runStatus) platformNow
    match lease with
    | none => return (db, notApplied authority)
    | some lease =>
      if !lease.matchesProof proof then return (db, notApplied authority)
      else matched lease authority run.runStatus

/-- How the lease operations report what a transaction raised. -/
def mutationFailure : Raised → Failure
  | .failure failure => failure
  | .integrity _ => .lease .storageUnavailable

def renew (db : Database) (command : RenewLeaseCommand) (platformNow : DateTime) :
    Database × Except Failure ConditionalLeaseOutcome :=
  db.settle mutationFailure (db.conditionalMutation command.proof platformNow fun lease authority _ =>
    db.renewMatched command lease authority platformNow)

def release (db : Database) (command : ReleaseLeaseCommand) (platformNow : DateTime) :
    Database × Except Failure ConditionalLeaseOutcome :=
  db.settle mutationFailure (db.conditionalMutation command.proof platformNow
    fun lease authority runStatus => db.releaseMatched command lease authority runStatus platformNow)

def loadReceipt (db : Database) (command : ClaimLeaseCommand) :
    Except Failure (Option WorkerLeaseClaimReceiptRecord) :=
  match db.workerLeaseClaimReceipts.get? (claimRowKey command.tenantId command.claimId) with
  | none => .ok none
  | some columns => do
    let receipt ← decodeClaimReceipt {
      columns.map utc with tenantId := command.tenantId.value, claimId := command.claimId.value }
    let storedIntent : ClaimLeaseCommand :=
      ⟨receipt.tenantId, receipt.workerId, receipt.claimId, receipt.duration⟩
    require (receipt.intentFingerprint == storedIntent.intentFingerprint) (.lease .dataCorruption)
    require (receipt.workerId == command.workerId && receipt.duration == command.duration &&
      receipt.intentFingerprint == command.intentFingerprint) (.lease .idempotencyConflict)
    return some receipt

/-- The result of a claimed receipt, all of whose fields are there. -/
structure ClaimedResult where
  runId : RunId
  attemptNo : LeaseAttemptNo
  initialLeaseVersion : LeaseVersion
  leaseAcquiredAt : DateTime
  leaseExpiresAt : DateTime
  replayToken : LeaseToken
  deriving DecidableEq

def claimedResult (receipt : WorkerLeaseClaimReceiptRecord) : Except Failure ClaimedResult :=
  match receipt.runId, receipt.attemptNo, receipt.initialLeaseVersion, receipt.leaseAcquiredAt,
    receipt.leaseExpiresAt, receipt.replayToken with
  | some runId, some attemptNo, some version, some acquiredAt, some expiresAt, some token =>
    .ok ⟨runId, attemptNo, version, acquiredAt, expiresAt, token⟩
  | _, _, _, _, _, _ => .error (.lease .dataCorruption)

def receiptProof (receipt : WorkerLeaseClaimReceiptRecord) (result : ClaimedResult) :
    LeaseAuthorityProof :=
  ⟨receipt.tenantId, result.runId, receipt.workerId, receipt.claimId, result.attemptNo,
    result.replayToken⟩

def receiptIsCurrent (db : Database) (receipt : WorkerLeaseClaimReceiptRecord) (result : ClaimedResult)
    (platformNow : DateTime) : Except Failure Bool :=
  let key := rowKey receipt.tenantId result.runId
  match db.workerLeases.get? key, db.runs.get? key with
  | some row, some run => do
    let lease ← decodeWorkerLease (row.mapping receipt.tenantId result.runId)
    return lease.workerId == receipt.workerId && lease.claimId == receipt.claimId &&
      lease.attemptNo == result.attemptNo && leaseTokenMatches result.replayToken lease.tokenDigest &&
      lease.releasedAt.isNone && decide (platformNow < lease.leaseExpiresAt) && isOwnable run.runStatus
  | _, _ => .ok false

def grantFromReceipt (receipt : WorkerLeaseClaimReceiptRecord) (currentlyAuthoritative : Bool) :
    Except Failure LeaseGrant := do
  let result ← claimedResult receipt
  let renewBy ← raising (renewByAt result.leaseAcquiredAt receipt.duration)
  raising (LeaseGrant.new {
    proof := receiptProof receipt result
    leaseVersion := result.initialLeaseVersion
    duration := receipt.duration
    acquiredAt := result.leaseAcquiredAt
    heartbeatAt := result.leaseAcquiredAt
    leaseExpiresAt := result.leaseExpiresAt
    renewByAt := renewBy
    currentlyAuthoritative := currentlyAuthoritative })

/-- `_outcome_from_receipt`, which every caller asks for as a replay. -/
def outcomeFromReceipt (db : Database) (receipt : WorkerLeaseClaimReceiptRecord)
    (platformNow : DateTime) : Except Failure LeaseClaimOutcome :=
  match receipt.outcome with
  | .noWork => .ok ⟨none, true⟩
  | .claimed => do
    let result ← claimedResult receipt
    let authoritative ← db.receiptIsCurrent receipt result platformNow
    let grant ← grantFromReceipt receipt authoritative
    return ⟨some grant, true⟩

/-- `_no_work_receipt`, or `_claimed_receipt` for a result. -/
def claimReceipt (command : ClaimLeaseCommand) (result : Option ClaimedResult) (createdAt : DateTime) :
    Except PyError WorkerLeaseClaimReceiptRecord := do
  let issuedAt ← claimIdIssuedAt command.claimId
  let replayExpiresAt ← issuedAt.add hours24
  WorkerLeaseClaimReceiptRecord.new {
    tenantId := command.tenantId
    claimId := command.claimId
    claimIssuedAt := issuedAt
    replayExpiresAt := replayExpiresAt
    workerId := command.workerId
    duration := command.duration
    intentFingerprint := command.intentFingerprint
    outcome := if result.isSome then .claimed else .noWork
    runId := result.map (·.runId)
    attemptNo := result.map (·.attemptNo)
    initialLeaseVersion := result.map (·.initialLeaseVersion)
    leaseAcquiredAt := result.map (·.leaseAcquiredAt)
    leaseExpiresAt := result.map (·.leaseExpiresAt)
    replayToken := result.map (·.replayToken)
    createdAt := createdAt }

/-- `_insert_claim_receipt`: a lost race when the primary key is taken. -/
def insertClaimReceipt (db : Database) (record : WorkerLeaseClaimReceiptRecord) :
    Except ClaimRaised Database :=
  let key := claimRowKey record.tenantId record.claimId
  match db.workerLeaseClaimReceipts.get? key with
  | some _ => .error .raceLost
  | none => do
    let columns := (encodeClaimReceipt record).toClaimReceiptColumns.map ZonedDateTime.instant
    require (columns.checks record.claimId.value)
      (.raised (.integrity "ck_worker_lease_claim_receipts"))
    require (record.runId.all fun runId => db.hasRun record.tenantId runId)
      (.raised (.integrity "fk_worker_lease_claim_receipts_tenant_run_runs"))
    return { db with workerLeaseClaimReceipts := db.workerLeaseClaimReceipts.insert key columns }

/-- The eligibility of `_select_eligible_run`: a queued run without a lease that is
    unreleased and unexpired. -/
def isEligible (db : Database) (key : RunRowKey) (run : RunRow) (platformNow : DateTime) : Bool :=
  run.runStatus == "queued" &&
    (db.workerLeases.get? key).all fun row =>
      row.releasedAt.isSome || decide (row.leaseExpiresAt ≤ platformNow)

/-- `ORDER BY updated_at, run_id`. -/
def queueKey (p : RunRowKey × RunRow) : DateTime ×ₗ RunId := toLex (p.2.updatedAt, (ofLex p.1).2)

/-- `_select_eligible_run`, whose two lock modes see the same rows here. -/
def selectEligibleRun (db : Database) (tenantId : TenantId) (platformNow : DateTime) : Option RunId :=
  let eligible := db.runs.items.filter fun p =>
    (ofLex p.1).1 == tenantId && db.isEligible p.1 p.2 platformNow
  ((eligible.insertionSort fun p q => queueKey p ≤ queueKey q).head?).map fun p => (ofLex p.1).2

/-- The recheck of a selected run under its locks. -/
def isClaimable (db : Database) (tenantId : TenantId) (runId : RunId) (lease : Option WorkerLeaseRecord)
    (mutationNow : DateTime) : Bool :=
  ((db.runs.get? (rowKey tenantId runId)).any fun run => run.runStatus == "queued") &&
    lease.all fun lease => lease.releasedAt.isSome || decide (lease.leaseExpiresAt ≤ mutationNow)

/-- What the selection loop ends with: a run and its current lease at a time, or nothing
    to claim. `none` when the readings run out. -/
def claimLoop (db : Database) (tenantId : TenantId) :
    Option RunId → List DateTime →
      Option (Except Failure (Option (RunId × Option WorkerLeaseRecord) × DateTime))
  | none, mutationNow :: _ => some (.ok (none, mutationNow))
  | some runId, mutationNow :: clock =>
    match db.loadLease tenantId runId with
    | .error e => some (.error e)
    | .ok lease =>
      if db.isClaimable tenantId runId lease mutationNow then
        some (.ok (some (runId, lease), mutationNow))
      else claimLoop db tenantId (db.selectEligibleRun tenantId mutationNow) clock
  | _, [] => none

/-- The unique constraint over tenant and claim id: another run of the tenant already has
    a lease of this claim. -/
def claimIdTaken (db : Database) (lease : WorkerLeaseRecord) : Bool :=
  db.workerLeases.items.any fun p =>
    (ofLex p.1).1 == lease.tenantId && p.2.claimId == lease.claimId.value &&
      p.1 != rowKey lease.tenantId lease.runId

/-- `_store_lease`, by an INSERT or an UPDATE of the row. -/
def storeLease (db : Database) (lease : WorkerLeaseRecord) (current : Option WorkerLeaseRecord) :
    Except ClaimRaised Database := do
  let key := rowKey lease.tenantId lease.runId
  match current with
  | none => require (db.workerLeases.get? key).isNone (.raised (.integrity "pk_worker_leases"))
  | some _ => require (db.workerLeases.get? key).isSome (.raised (.failure (.lease .dataCorruption)))
  require (!db.claimIdTaken lease) .raceLost
  require (db.hasRun lease.tenantId lease.runId)
    (.raised (.integrity "fk_worker_leases_tenant_run_runs"))
  let row ← (checkedRow ((encodeWorkerLease lease).toWorkerLeaseColumns.map ZonedDateTime.instant)).mapError
    .raised
  return db.putLease lease.tenantId lease.runId row

/-- The lease of a claim: the first attempt and version, or the next of the current one. -/
def nextLease (command : ClaimLeaseCommand) (token : LeaseToken) (runId : RunId)
    (current : Option WorkerLeaseRecord) (mutationNow : DateTime) : Except PyError WorkerLeaseRecord := do
  let attemptNo ← match current with
    | none => .ok PositiveCounter.one
    | some lease => lease.attemptNo.next
  let leaseVersion ← match current with
    | none => .ok PositiveCounter.one
    | some lease => lease.leaseVersion.next
  let leaseExpiresAt ← mutationNow.add command.duration.micros
  WorkerLeaseRecord.new {
    tenantId := command.tenantId
    runId := runId
    workerId := command.workerId
    claimId := command.claimId
    tokenDigest := digestLeaseToken token
    attemptNo := attemptNo
    leaseVersion := leaseVersion
    duration := command.duration
    acquiredAt := mutationNow
    heartbeatAt := mutationNow
    leaseExpiresAt := leaseExpiresAt
    releasedAt := none }

def claimWrite (db : Database) (command : ClaimLeaseCommand) (token : LeaseToken)
    (selected : Option (RunId × Option WorkerLeaseRecord)) (mutationNow : DateTime) :
    Except ClaimRaised (Database × LeaseClaimOutcome) :=
  match selected with
  | none => do
    let receipt ← claiming (raising (claimReceipt command none mutationNow))
    let db ← db.insertClaimReceipt receipt
    return (db, ⟨none, false⟩)
  | some (runId, current) => do
    let lease ← claiming (raising (nextLease command token runId current mutationNow))
    let receipt ← claiming (raising (claimReceipt command (some ⟨lease.runId, lease.attemptNo,
      lease.leaseVersion, lease.acquiredAt, lease.leaseExpiresAt, token⟩) mutationNow))
    let db ← db.storeLease lease current
    let db ← db.insertClaimReceipt receipt
    let grant ← claiming (grantFromReceipt receipt true)
    return (db, ⟨some grant, false⟩)

def receiptLookup (db : Database) (command : ClaimLeaseCommand) (requestNow : DateTime) :
    Except Failure (Option LeaseClaimOutcome) := do
  let receipt ← db.loadReceipt command
  match receipt with
  | none => return none
  | some receipt =>
    let outcome ← db.outcomeFromReceipt receipt requestNow
    return some outcome

def claimLookup (db : Database) (command : ClaimLeaseCommand) (requestNow : DateTime) :
    Except Failure (Option LeaseClaimOutcome) := do
  validateClaimAge command.claimId requestNow
  db.receiptLookup command requestNow

/-- The rest of a claim whose receipt is absent. The clock is read once more before the
    loop, and that reading is not used. -/
def claimFresh (db : Database) (command : ClaimLeaseCommand) (token : LeaseToken)
    (requestNow : DateTime) (clock : List DateTime) :
    Option (Except ClaimRaised (Database × LeaseClaimOutcome)) :=
  match db.claimLoop command.tenantId (db.selectEligibleRun command.tenantId requestNow) clock.tail with
  | none => none
  | some (.error e) => some (.error (.raised (.failure e)))
  | some (.ok (selected, mutationNow)) => some (db.claimWrite command token selected mutationNow)

def claimTransaction (db : Database) (command : ClaimLeaseCommand) (token : LeaseToken)
    (requestNow : DateTime) (clock : List DateTime) :
    Option (Except ClaimRaised (Database × LeaseClaimOutcome)) :=
  match db.claimLookup command requestNow with
  | .error e => some (.error (.raised (.failure e)))
  | .ok (some outcome) => some (.ok (db, outcome))
  | .ok none => db.claimFresh command token requestNow clock

-- Stated for the function, not for its values: between two values the kernel evaluates
-- the scrutinee, and with it the age of an unknown claim id, before it unfolds them.
theorem claimTransaction_def : claimTransaction = fun db command token requestNow clock =>
    match db.claimLookup command requestNow with
    | .error e => some (.error (.raised (.failure e)))
    | .ok (some outcome) => some (.ok (db, outcome))
    | .ok none => db.claimFresh command token requestNow clock := by
  delta claimTransaction
  rfl

def replayAfterRace (db : Database) (command : ClaimLeaseCommand) (platformNow : DateTime) :
    Except Failure LeaseClaimOutcome := do
  let outcome ← db.claimLookup command platformNow
  match outcome with
  | none => .error (.lease .dataCorruption)
  | some outcome => return outcome

/-- How a claim reports the violation of a constraint. -/
def claimFailure : Raised → Failure
  | .failure failure => failure
  | .integrity _ => .lease .dataCorruption

/-- `claim`; `raceNow` is the reading after a lost race. -/
def claim (db : Database) (command : ClaimLeaseCommand) (token : LeaseToken) (requestNow : DateTime)
    (clock : List DateTime) (raceNow : DateTime) :
    Option (Database × Except Failure LeaseClaimOutcome) :=
  (db.claimTransaction command token requestNow clock).map fun
    | .ok (next, outcome) => (next, .ok outcome)
    | .error .raceLost => (db, db.replayAfterRace command raceNow)
    | .error (.raised e) => (db, .error (claimFailure e))

end Database
end Zhiyi
