import Zhiyi.Postgres.Refusals

set_option autoImplicit false

/-! Inactive running leases: what the recovery query finds is what the authority
query denies. -/
namespace Zhiyi
open Python

/-- The observation that a lease row makes once its authority ended. -/
structure InactiveRunningLease.Observes (record : InactiveRunningLease) (tenantId : TenantId)
    (runId : RunId) (row : WorkerLeaseRow) : Prop where
  tenant : record.tenantId = tenantId
  run : record.runId = runId
  attempt : record.attemptNo.value = row.attemptNo
  version : record.leaseVersion.value = row.leaseVersion
  acquired : record.acquiredAt = row.acquiredAt
  heartbeat : record.heartbeatAt = row.heartbeatAt
  released : ∀ releasedAt, row.releasedAt = some releasedAt →
    record.reason = .released ∧ record.authorityEndedAt = releasedAt
  expired : row.releasedAt = none →
    record.reason = .expired ∧ record.authorityEndedAt = row.leaseExpiresAt

theorem WorkerLeaseRow.acquiredAt_le_authorityEndedAt (row : WorkerLeaseRow) :
    row.acquiredAt ≤ row.authorityEndedAt := by
  have hvalid := row.valid
  simp only [WorkerLeaseColumns.checks, Bool.and_eq_true, beq_iff_eq, decide_eq_true_eq] at hvalid
  obtain ⟨⟨⟨⟨-, hheartbeat⟩, hexpires⟩, hreleased⟩, -⟩ := hvalid
  unfold authorityEndedAt
  cases hcase : row.releasedAt with
  | none => exact hheartbeat.trans hexpires.le
  | some releasedAt => simpa [hcase] using hreleased

theorem WorkerLeaseRow.exists_inactive (row : WorkerLeaseRow) (tenantId : TenantId) (runId : RunId) :
    ∃ record, decodeInactiveRunning (Database.inactiveRunning tenantId runId row) = .ok record ∧
      record.Observes tenantId runId row := by
  obtain ⟨lease, -, hstores⟩ := row.exists_lease tenantId runId
  let reason : InactiveRunningReason := if row.releasedAt.isSome then .released else .expired
  let fields : InactiveRunningLeaseFields := {
    tenantId := tenantId
    runId := runId
    attemptNo := lease.attemptNo
    leaseVersion := lease.leaseVersion
    acquiredAt := row.acquiredAt
    heartbeatAt := row.heartbeatAt
    authorityEndedAt := row.authorityEndedAt
    reason := reason }
  have hheartbeat : row.acquiredAt ≤ row.heartbeatAt := by
    rw [← hstores.acquired, ← hstores.heartbeat]
    exact lease.ordered.1
  have hfields : fields.postInit = .ok () := by
    simp [fields, InactiveRunningLeaseFields.postInit, hheartbeat.not_gt,
      row.acquiredAt_le_authorityEndedAt.not_gt, bind, Except.bind]
  have hreason : (if row.releasedAt.isSome then "released" else "expired") = reason.value := by
    simp only [reason]
    split_ifs <;> rfl
  refine ⟨⟨fields, hfields⟩, ?_, rfl, rfl, hstores.attempt, hstores.version, rfl, rfl, ?_, ?_⟩
  · unfold decodeInactiveRunning Database.inactiveRunning
    simp only [bind, Except.bind, Identifier.new_value, ← hstores.attempt, ← hstores.version,
      PositiveCounter.new_value, hreason, enumOf_reason, requireUtc_utc]
    exact congrArg leaseCorrupted (construct_of_ok _ hfields)
  · intro releasedAt hreleased
    exact ⟨by simp [fields, reason, hreleased], by simp [fields, authorityEndedAt, hreleased]⟩
  · intro hreleased
    exact ⟨by simp [fields, reason, hreleased], by simp [fields, authorityEndedAt, hreleased]⟩

namespace Database
variable {db : Database} {tenantId : TenantId} {runId : RunId} {row : WorkerLeaseRow} {run : RunRow}

theorem getInactiveRunning_of_rows (hrow : db.workerLeases.get? (rowKey tenantId runId) = some row)
    (hrun : db.runs.get? (rowKey tenantId runId) = some run) (hrunning : run.runStatus = "running")
    (now : DateTime) :
    ∃ record, record.Observes tenantId runId row ∧
      db.getInactiveRunning tenantId runId now =
        .ok (if row.authorityEndedAt ≤ now then some record else none) := by
  obtain ⟨record, hrecord, hobserves⟩ := row.exists_inactive tenantId runId
  refine ⟨record, hobserves, ?_⟩
  simp only [getInactiveRunning, hrow, isRunning, hrun, Option.any_some, hrunning, beq_self_eq_true,
    Bool.true_and, decide_eq_true_eq, hrecord]
  split_ifs <;> rfl

theorem getInactiveRunning_of_notRunning (hrun : db.isRunning (rowKey tenantId runId) = false)
    (now : DateTime) : db.getInactiveRunning tenantId runId now = .ok none := by
  unfold getInactiveRunning
  cases db.workerLeases.get? (rowKey tenantId runId) with
  | none => rfl
  | some row => simp [hrun]

theorem evaluateAuthority_running {proof : LeaseAuthorityProof} {lease : WorkerLeaseRecord} {now : DateTime}
    (hmatches : lease.matchesProof proof = true) (hstores : row.Stores tenantId runId lease)
    (hreleased : ∀ releasedAt, row.releasedAt = some releasedAt → releasedAt ≤ now) :
    (evaluateAuthority proof (some lease) (some "running") now).authoritative = false ↔
      row.authorityEndedAt ≤ now := by
  have howned : isOwnable "running" = true := rfl
  simp only [evaluateAuthority, hmatches, Option.any_some, howned, hstores.released, hstores.expires,
    WorkerLeaseRow.authorityEndedAt]
  cases hcase : row.releasedAt with
  | some releasedAt => simp [LeaseAuthority.matchedNotCurrent, hreleased releasedAt hcase]
  | none =>
    by_cases hexpired : row.leaseExpiresAt ≤ now
    · simp [hexpired, LeaseAuthority.expired]
    · simp [hexpired, LeaseAuthority.current]

/-- What recovery relies on, of a running run and its lease row. -/
structure InactiveAgrees (db : Database) (tenantId : TenantId) (runId : RunId) (row : WorkerLeaseRow)
    (now : DateTime) : Prop where
  observed : ∃ found, db.getInactiveRunning tenantId runId now = .ok found ∧
    ∀ record, found = some record → record.Observes tenantId runId row ∧ record.authorityEndedAt ≤ now
  complement : ∀ proof lease, proof.tenantId = tenantId → proof.runId = runId →
    decodeWorkerLease (row.mapping tenantId runId) = .ok lease → lease.matchesProof proof = true →
    ((∃ record, db.getInactiveRunning tenantId runId now = .ok (some record)) ↔
      ∃ authority, db.getAuthority proof now = .ok authority ∧ authority.authoritative = false)

/-- A running run is reported inactive exactly when its own proof is not authoritative, and
    no other run is reported. -/
theorem inactive_iff_not_authoritative (db : Database) (tenantId : TenantId) (runId : RunId) (run : RunRow)
    (now : DateTime) (hrun : db.runs.get? (rowKey tenantId runId) = some run) :
    (run.runStatus = "running" →
      ∀ row, db.workerLeases.get? (rowKey tenantId runId) = some row →
        (∀ releasedAt, row.releasedAt = some releasedAt → releasedAt ≤ now) →
        db.InactiveAgrees tenantId runId row now) ∧
    (run.runStatus ≠ "running" → db.getInactiveRunning tenantId runId now = .ok none) := by
  refine ⟨fun hrunning row hrow hreleased => ?_, fun hother => ?_⟩
  · obtain ⟨observed, hobserves, hquery⟩ := getInactiveRunning_of_rows hrow hrun hrunning now
    refine ⟨⟨_, hquery, fun record hrecord => ?_⟩, ?_⟩
    · split_ifs at hrecord with hended
      cases hrecord
      refine ⟨hobserves, ?_⟩
      cases hcase : row.releasedAt with
      | none =>
        rw [(hobserves.expired hcase).2]
        simpa [WorkerLeaseRow.authorityEndedAt, hcase] using hended
      | some releasedAt =>
        rw [(hobserves.released releasedAt hcase).2]
        exact hreleased releasedAt hcase
    · rintro proof lease rfl rfl hlease hmatches
      have hended := evaluateAuthority_running hmatches (WorkerLeaseRow.stores_of_decode hlease) hreleased
      rw [getAuthority_of_rows hrow hrun hlease, hquery, hrunning]
      simp only [Except.ok.injEq, exists_eq_left', hended]
      split_ifs with h <;> simp [h]
  · exact getInactiveRunning_of_notRunning (by simp [isRunning, hrun, hother]) now

end Database

namespace Sample

def leaseColumns : WorkerLeaseColumns DateTime where
  workerId := worker.value
  claimId := claimId.value
  tokenDigest := digestLeaseToken token
  attemptNo := 1
  leaseVersion := 1
  durationSeconds := 30
  acquiredAt := opening
  heartbeatAt := opening
  leaseExpiresAt := instant 30 (by decide)
  releasedAt := none
  recordFormatVersion := recordFormatVersion

def leaseRow : WorkerLeaseRow where
  toWorkerLeaseColumns := leaseColumns
  valid := by
    have hdigest : leaseColumns.tokenDigest.length = 32 := Sha256.digest_length _
    simp only [WorkerLeaseColumns.checks, hdigest]
    decide

/-- The sample run, running under its lease. -/
def leased : Database := (Database.empty.putRun runningRun).putLease tenant runId leaseRow

theorem leased_runs : leased.runs.get? (rowKey tenant runId) = some runningRun.row :=
  Dict.get?_insert_self Dict.empty _ _

theorem leased_workerLeases : leased.workerLeases.get? (rowKey tenant runId) = some leaseRow :=
  Dict.get?_insert_self Dict.empty _ _

end Sample

open Sample in
theorem Database.inactive_at_expiry : leased.InactiveAgrees tenant runId leaseRow leaseRow.leaseExpiresAt :=
  (inactive_iff_not_authoritative leased tenant runId runningRun.row leaseRow.leaseExpiresAt leased_runs).1 rfl
    leaseRow leased_workerLeases fun _ h => by simp [leaseRow, leaseColumns] at h

end Zhiyi
