import Zhiyi.Postgres.WorkerLeaseRepository

set_option autoImplicit false

/-! The authority of a lease proof, as the four places that decide it see it: the
authority query, guarded commits, replayed claims and the recovery query. -/
namespace Zhiyi
open Python

theorem exists_workerId {s : String} (h : matchesIdentifierPattern s = true) :
    ∃ i : WorkerId, i.value = s := ⟨⟨s, h⟩, rfl⟩

theorem exists_of_isOk {ε α : Type} {x : Except ε α} (h : x.isOk = true) : ∃ a, x = .ok a := by
  cases x with
  | error e => cases h
  | ok a => exact ⟨a, rfl⟩

theorem LeaseClaimId.new_eq_ok {n : ℕ} {claimId : LeaseClaimId} (h : LeaseClaimId.new n = .ok claimId) :
    claimId.value = n := by
  unfold new at h
  split_ifs at h
  cases h
  rfl

theorem PositiveCounter.new_eq_ok {n : ℕ} {counter : PositiveCounter}
    (h : PositiveCounter.new n = .ok counter) : counter.value = n := by
  unfold new at h
  split_ifs at h
  cases h
  rfl

theorem LeaseDurationSeconds.new_eq_ok {n : ℕ} {duration : LeaseDurationSeconds}
    (h : LeaseDurationSeconds.new n = .ok duration) : duration.value = n := by
  unfold new at h
  split_ifs at h
  cases h
  rfl

structure WorkerLeaseRow.Stores (row : WorkerLeaseRow) (tenantId : TenantId) (runId : RunId)
    (lease : WorkerLeaseRecord) : Prop where
  tenant : lease.tenantId = tenantId
  run : lease.runId = runId
  worker : lease.workerId.value = row.workerId
  claim : lease.claimId.value = row.claimId
  digest : lease.tokenDigest = row.tokenDigest
  attempt : lease.attemptNo.value = row.attemptNo
  version : lease.leaseVersion.value = row.leaseVersion
  duration : lease.duration.value = row.durationSeconds
  acquired : lease.acquiredAt = row.acquiredAt
  heartbeat : lease.heartbeatAt = row.heartbeatAt
  expires : lease.leaseExpiresAt = row.leaseExpiresAt
  released : lease.releasedAt = row.releasedAt

theorem WorkerLeaseRow.exists_lease (row : WorkerLeaseRow) (tenantId : TenantId) (runId : RunId) :
    ∃ lease, decodeWorkerLease (row.mapping tenantId runId) = .ok lease ∧
      row.Stores tenantId runId lease := by
  have hvalid := row.valid
  simp only [WorkerLeaseColumns.checks, Bool.and_eq_true, beq_iff_eq, decide_eq_true_eq] at hvalid
  obtain ⟨⟨⟨⟨⟨⟨⟨⟨⟨hworker, hclaim⟩, hdigest⟩, hattempt⟩, hversion⟩, hduration⟩, hheartbeat⟩, hexpires⟩,
    hreleased⟩, hformat⟩ := hvalid
  obtain ⟨workerId, hworker⟩ := exists_workerId hworker
  obtain ⟨claimId, hclaim⟩ := exists_of_isOk hclaim
  obtain ⟨attemptNo, hattempt⟩ := exists_of_isOk hattempt
  obtain ⟨leaseVersion, hversion⟩ := exists_of_isOk hversion
  obtain ⟨duration, hduration⟩ := exists_of_isOk hduration
  let fields : WorkerLeaseFields := {
    tenantId := tenantId
    runId := runId
    workerId := workerId
    claimId := claimId
    tokenDigest := row.tokenDigest
    attemptNo := attemptNo
    leaseVersion := leaseVersion
    duration := duration
    acquiredAt := row.acquiredAt
    heartbeatAt := row.heartbeatAt
    leaseExpiresAt := row.leaseExpiresAt
    releasedAt := row.releasedAt }
  have hrelease : (row.releasedAt.all fun releasedAt => !(releasedAt < row.acquiredAt)) = true := by
    cases hcase : row.releasedAt with
    | none => rfl
    | some releasedAt => simpa [hcase] using hreleased
  have hfields : fields.postInit = .ok () := by
    simp [fields, WorkerLeaseFields.postInit, hdigest, hheartbeat.not_gt, hexpires.not_ge, hrelease, bind,
      Except.bind]
  refine ⟨⟨fields, hfields⟩, ?_, ?_⟩
  · unfold decodeWorkerLease WorkerLeaseRow.mapping
    simp only [WorkerLeaseColumns.map, hformat, beq_self_eq_true, require_true, bind, Except.bind,
      Identifier.new_value, ← hworker, hclaim, hattempt, hversion, hduration, requireUtc_utc,
      requireOptionalUtc_utc]
    exact congrArg leaseCorrupted (construct_of_ok _ hfields)
  · exact ⟨rfl, rfl, hworker, LeaseClaimId.new_eq_ok hclaim, rfl, PositiveCounter.new_eq_ok hattempt,
      PositiveCounter.new_eq_ok hversion, LeaseDurationSeconds.new_eq_ok hduration, rfl, rfl, rfl, rfl⟩

theorem WorkerLeaseRow.stores_of_decode {row : WorkerLeaseRow} {tenantId : TenantId} {runId : RunId}
    {lease : WorkerLeaseRecord} (h : decodeWorkerLease (row.mapping tenantId runId) = .ok lease) :
    row.Stores tenantId runId lease := by
  obtain ⟨other, hother, hstores⟩ := row.exists_lease tenantId runId
  cases Except.ok.inj (h.symm.trans hother)
  exact hstores

namespace Database

theorem loadAuthorityState_of_rows {db : Database} {proof : LeaseAuthorityProof} {row : WorkerLeaseRow}
    {run : RunRow} {lease : WorkerLeaseRecord}
    (hrow : db.workerLeases.get? (rowKey proof.tenantId proof.runId) = some row)
    (hrun : db.runs.get? (rowKey proof.tenantId proof.runId) = some run)
    (hlease : decodeWorkerLease (row.mapping proof.tenantId proof.runId) = .ok lease) :
    db.loadAuthorityState proof = .ok (some lease, some run.runStatus) := by
  simp only [loadAuthorityState, hrow, hrun, hlease]
  rfl

theorem loadAuthorityState_of_none {db : Database} {proof : LeaseAuthorityProof}
    (h : db.workerLeases.get? (rowKey proof.tenantId proof.runId) = none ∨
      db.runs.get? (rowKey proof.tenantId proof.runId) = none) :
    db.loadAuthorityState proof = .ok (none, none) := by
  unfold loadAuthorityState
  rcases h with h | h
  · simp only [h]
  · cases hrow : db.workerLeases.get? (rowKey proof.tenantId proof.runId) <;> simp only [h, hrow]

theorem getAuthority_of_rows {db : Database} {proof : LeaseAuthorityProof} {row : WorkerLeaseRow}
    {run : RunRow} {lease : WorkerLeaseRecord}
    (hrow : db.workerLeases.get? (rowKey proof.tenantId proof.runId) = some row)
    (hrun : db.runs.get? (rowKey proof.tenantId proof.runId) = some run)
    (hlease : decodeWorkerLease (row.mapping proof.tenantId proof.runId) = .ok lease)
    (now : DateTime) :
    db.getAuthority proof now = .ok (evaluateAuthority proof (some lease) (some run.runStatus) now) := by
  simp only [getAuthority, loadAuthorityState_of_rows hrow hrun hlease]
  rfl

theorem getAuthority_of_none {db : Database} {proof : LeaseAuthorityProof}
    (h : db.workerLeases.get? (rowKey proof.tenantId proof.runId) = none ∨
      db.runs.get? (rowKey proof.tenantId proof.runId) = none) (now : DateTime) :
    db.getAuthority proof now = .ok .notCurrent := by
  simp only [getAuthority, loadAuthorityState_of_none h]
  rfl

theorem evaluateAuthority_eq_true {proof : LeaseAuthorityProof} {lease : WorkerLeaseRecord}
    {runStatus : String} {now : DateTime} :
    (evaluateAuthority proof (some lease) (some runStatus) now).authoritative = true ↔
      lease.matchesProof proof = true ∧ lease.releasedAt = none ∧ isOwnable runStatus = true ∧
        now < lease.leaseExpiresAt := by
  simp only [evaluateAuthority, Option.any_some]
  cases lease.matchesProof proof with
  | false => simp [LeaseAuthority.notCurrent]
  | true =>
    cases lease.releasedAt with
    | some releasedAt => simp [LeaseAuthority.matchedNotCurrent]
    | none =>
      by_cases howned : isOwnable runStatus = true
      · by_cases hexpired : lease.leaseExpiresAt ≤ now
        · simp [howned, hexpired, LeaseAuthority.expired]
        · simp [howned, hexpired, LeaseAuthority.current, not_le.mp hexpired]
      · simp [howned, LeaseAuthority.matchedNotCurrent]

/-- The row is that of this proof. -/
def Names (row : WorkerLeaseRow) (proof : LeaseAuthorityProof) : Prop :=
  row.workerId = proof.workerId.value ∧ row.claimId = proof.claimId.value ∧
    row.tokenDigest = digestLeaseToken proof.token ∧ row.attemptNo = proof.attemptNo.value

theorem matchesProof_iff {proof : LeaseAuthorityProof} {lease : WorkerLeaseRecord} {row : WorkerLeaseRow}
    (hstores : row.Stores proof.tenantId proof.runId lease) :
    lease.matchesProof proof = true ↔ Names row proof := by
  simp only [WorkerLeaseRecord.matchesProof, leaseTokenMatches, Names, Bool.and_eq_true, beq_iff_eq,
    hstores.tenant, hstores.run, ← hstores.worker, ← hstores.claim, ← hstores.digest, ← hstores.attempt,
    Identifier.value_injective.eq_iff, LeaseClaimId.value_injective.eq_iff,
    PositiveCounter.value_injective.eq_iff, true_and]
  constructor
  · rintro ⟨⟨⟨hworker, hclaim⟩, hattempt⟩, hdigest⟩
    exact ⟨hworker, hclaim, hdigest.symm, hattempt⟩
  · rintro ⟨hworker, hclaim, hdigest, hattempt⟩
    exact ⟨⟨⟨hworker, hclaim⟩, hattempt⟩, hdigest.symm⟩

end Database

/-- What a guarded commit does under an authority view. -/
def LeaseAuthority.guard (authority : LeaseAuthority) : Except Failure Unit :=
  match authority.reason with
  | none => .ok ()
  | some code => .error (.lease code)

theorem LeaseAuthority.guard_eq_ok (authority : LeaseAuthority) :
    authority.guard = .ok () ↔ authority.authoritative = true := by
  have hsafe := authority.safe
  unfold guard
  cases hauthoritative : authority.authoritative with
  | true => simp_all
  | false =>
    simp only [hauthoritative, Bool.false_eq_true, if_false] at hsafe
    rcases hsafe with h | h <;> simp [h]

theorem validateCurrentLease_eq_guard (proof : LeaseAuthorityProof) (lease : Option WorkerLeaseRecord)
    (runStatus : String) (now : DateTime) :
    Database.validateCurrentLease proof lease runStatus now =
      (evaluateAuthority proof lease (some runStatus) now).guard := by
  cases lease with
  | none => rfl
  | some lease =>
    have hsplit : (lease.tenantId == proof.tenantId && lease.runId == proof.runId &&
        lease.workerId == proof.workerId && lease.claimId == proof.claimId &&
        lease.attemptNo == proof.attemptNo && leaseTokenMatches proof.token lease.tokenDigest &&
        lease.releasedAt.isNone && Database.isOwnable runStatus) =
        (lease.matchesProof proof && (lease.releasedAt.isNone && Database.isOwnable runStatus)) := by
      simp only [WorkerLeaseRecord.matchesProof, Bool.and_assoc]
    simp only [Database.validateCurrentLease, hsplit, evaluateAuthority, Option.any_some]
    cases hproof : lease.matchesProof proof with
    | false => rfl
    | true =>
      cases hreleased : lease.releasedAt with
      | some releasedAt =>
        simp [LeaseAuthority.guard, LeaseAuthority.matchedNotCurrent, bind, Except.bind]
      | none =>
        by_cases howned : Database.isOwnable runStatus = true
        · by_cases hexpired : lease.leaseExpiresAt ≤ now
          · simp [howned, hexpired, LeaseAuthority.guard, LeaseAuthority.expired, bind, Except.bind]
          · simp [howned, hexpired, LeaseAuthority.guard, LeaseAuthority.current, bind, Except.bind]
        · simp [howned, LeaseAuthority.guard, LeaseAuthority.matchedNotCurrent, bind, Except.bind]

/-- A replayed claim is current exactly when its own proof is authoritative. -/
theorem receiptIsCurrent_eq_authority (db : Database) (receipt : WorkerLeaseClaimReceiptRecord)
    (result : Database.ClaimedResult) (now : DateTime) :
    db.receiptIsCurrent receipt result now =
      (db.getAuthority (Database.receiptProof receipt result) now).map (·.authoritative) := by
  cases hrow : db.workerLeases.get? (rowKey receipt.tenantId result.runId) with
  | none =>
    rw [Database.getAuthority_of_none (.inl hrow)]
    simp only [Database.receiptIsCurrent, hrow]
    rfl
  | some row =>
    cases hrun : db.runs.get? (rowKey receipt.tenantId result.runId) with
    | none =>
      rw [Database.getAuthority_of_none (.inr hrun)]
      simp only [Database.receiptIsCurrent, hrow, hrun]
      rfl
    | some run =>
      obtain ⟨lease, hlease, hstores⟩ := row.exists_lease receipt.tenantId result.runId
      have hquery := @Database.getAuthority_of_rows db
        (Database.receiptProof receipt result) _ _ _ hrow hrun hlease
      rw [hquery]
      simp only [Database.receiptIsCurrent, hrow, hrun, hlease, bind, Except.bind, pure, Except.pure,
        Except.map, Except.ok.injEq]
      have hmatches : lease.matchesProof (Database.receiptProof receipt result) =
          (lease.workerId == receipt.workerId && lease.claimId == receipt.claimId &&
            lease.attemptNo == result.attemptNo &&
            leaseTokenMatches result.replayToken lease.tokenDigest) := by
        simp [WorkerLeaseRecord.matchesProof, Database.receiptProof, hstores.tenant, hstores.run]
      rw [← hmatches]
      simp only [evaluateAuthority, Option.any_some]
      cases lease.matchesProof (Database.receiptProof receipt result) with
      | false => rfl
      | true =>
        cases lease.releasedAt with
        | some releasedAt => rfl
        | none =>
          by_cases howned : Database.isOwnable run.runStatus = true
          · by_cases hexpired : lease.leaseExpiresAt ≤ now
            · simp [howned, hexpired, LeaseAuthority.expired]
            · simp [howned, hexpired, LeaseAuthority.current, not_le.mp hexpired]
          · simp [howned, LeaseAuthority.matchedNotCurrent]

/-- Guarded commits, the authority query and replayed claims decide authority alike. -/
theorem authority_predicates_agree :
    (∀ proof lease runStatus now,
      ((evaluateAuthority proof lease (some runStatus) now).authoritative = true ↔
        Database.validateCurrentLease proof lease runStatus now = .ok ()) ∧
      ∀ code, (evaluateAuthority proof lease (some runStatus) now).reason = some code ↔
        Database.validateCurrentLease proof lease runStatus now = .error (.lease code)) ∧
    ∀ (db : Database) receipt result now, db.receiptIsCurrent receipt result now =
      (db.getAuthority (Database.receiptProof receipt result) now).map (·.authoritative) := by
  refine ⟨fun proof lease runStatus now => ⟨?_, fun code => ?_⟩, receiptIsCurrent_eq_authority⟩
  · rw [validateCurrentLease_eq_guard, LeaseAuthority.guard_eq_ok]
  · rw [validateCurrentLease_eq_guard, LeaseAuthority.guard]
    cases (evaluateAuthority proof lease (some runStatus) now).reason <;> simp

end Zhiyi
