import Zhiyi.Domain.Transitions
import Zhiyi.Postgres.Authority

set_option autoImplicit false

/-! Renewals and releases that are not applied, and the authority view they return. -/
namespace Zhiyi
open Python

@[simp] theorem raised_ok {α : Type} (a : α) : raised (.ok a) = .ok a := rfl

@[simp] theorem raised_error {α : Type} (e : Failure) :
    raised (.error e : Except Failure α) = .error (.failure e) := rfl

namespace Database

abbrev corrupt : Raised := .failure (.lease .dataCorruption)

structure Finds (db : Database) (proof : LeaseAuthorityProof) (row : WorkerLeaseRow) (run : RunRow) :
    Prop where
  leased : db.workerLeases.get? (rowKey proof.tenantId proof.runId) = some row
  stored : db.runs.get? (rowKey proof.tenantId proof.runId) = some run
  names : Names row proof

/-- Nothing refuses the renewal: the lease is held, unexpired and at the expected version, and its
    run is queued or running. -/
structure RenewalDue (db : Database) (command : RenewLeaseCommand) (now : DateTime) (row : WorkerLeaseRow)
    (run : RunRow) : Prop where
  finds : db.Finds command.proof row run
  held : row.releasedAt = none
  owned : isOwnable run.runStatus = true
  live : now < row.leaseExpiresAt
  version : row.leaseVersion = command.expectedVersion.value

/-- The renewed row can be stored: a bigint holds its version, a datetime shows its expiry, and the
    CHECK constraints hold of its times. -/
structure RenewalFits (command : RenewLeaseCommand) (now : DateTime) (row : WorkerLeaseRow) : Prop where
  version : row.leaseVersion < maxSignedBigint
  expiry : now.micros + command.duration.micros ≤ maxMicros
  acquired : row.acquiredAt ≤ now

/-- Nothing refuses the release. Under a run that is neither queued nor running, an expired lease is
    released as well. -/
structure ReleaseDue (db : Database) (command : ReleaseLeaseCommand) (now : DateTime) (row : WorkerLeaseRow)
    (run : RunRow) : Prop where
  finds : db.Finds command.proof row run
  held : row.releasedAt = none
  live : isOwnable run.runStatus = true → now < row.leaseExpiresAt
  version : row.leaseVersion = command.expectedVersion.value

structure ReleaseFits (now : DateTime) (row : WorkerLeaseRow) : Prop where
  version : row.leaseVersion < maxSignedBigint
  acquired : row.acquiredAt ≤ now

/-- How a mutation ends once its proof matches: refused with the view, applied, or, where it is due
    and does not fit, raised. -/
inductive Concludes (db : Database) (authority : LeaseAuthority) (due fits : Prop) :
    Except Raised (Database × ConditionalLeaseOutcome) → Prop
  | refused (hdue : ¬due) : Concludes db authority due fits (.ok (db, notApplied authority))
  | applied (next : Database) (outcome : ConditionalLeaseOutcome) (hfits : fits)
    (happlied : outcome.applied = true) : Concludes db authority due fits (.ok (next, outcome))
  | raised (e : Raised) (hdue : due) (hfits : ¬fits) : Concludes db authority due fits (.error e)

variable {db : Database} {row : WorkerLeaseRow} {run : RunRow} {lease : WorkerLeaseRecord} {now : DateTime}

theorem updateLease_of_version {proof : LeaseAuthorityProof}
    {change : WorkerLeaseColumns DateTime → WorkerLeaseColumns DateTime}
    (hrow : db.workerLeases.get? (rowKey proof.tenantId proof.runId) = some row)
    (hversion : lease.leaseVersion.value = row.leaseVersion) :
    db.updateLease proof lease.leaseVersion change =
      (checkedRow (change row.toWorkerLeaseColumns)).map (db.putLease proof.tenantId proof.runId) := by
  unfold updateLease
  simp only [hrow, hversion, beq_self_eq_true, require_true, bind, Except.bind]
  cases checkedRow (change row.toWorkerLeaseColumns) <;> rfl

theorem checks_renewed (version : LeaseVersion) (duration : LeaseDurationSeconds) {expiry : DateTime}
    (hheld : row.releasedAt = none) (hlate : now < expiry) :
    ({ row.toWorkerLeaseColumns with
      durationSeconds := duration.value
      leaseVersion := version.value
      heartbeatAt := now
      leaseExpiresAt := expiry } : WorkerLeaseColumns DateTime).checks = decide (row.acquiredAt ≤ now) := by
  have hvalid := row.valid
  simp only [WorkerLeaseColumns.checks, Bool.and_eq_true] at hvalid ⊢
  have hversion : (PositiveCounter.new version.value).isOk = true := by
    rw [PositiveCounter.new_value]
    rfl
  have hduration : (LeaseDurationSeconds.new duration.value).isOk = true := by
    rw [LeaseDurationSeconds.new_value]
    rfl
  simp only [hvalid, hversion, hduration, hheld, hlate, Option.all_none, decide_true, Bool.and_true,
    Bool.true_and]

theorem checks_released {version : LeaseVersion} :
    ({ row.toWorkerLeaseColumns with leaseVersion := version.value, releasedAt := some now } :
      WorkerLeaseColumns DateTime).checks = decide (row.acquiredAt ≤ now) := by
  have hvalid := row.valid
  simp only [WorkerLeaseColumns.checks, Bool.and_eq_true] at hvalid ⊢
  have hversion : (PositiveCounter.new version.value).isOk = true := by
    rw [PositiveCounter.new_value]
    rfl
  simp only [hvalid, hversion, Option.all_some, Bool.and_true, Bool.true_and]

theorem renewMatched_concludes {command : RenewLeaseCommand}
    (hrow : db.workerLeases.get? (rowKey command.proof.tenantId command.proof.runId) = some row)
    (hrun : db.runs.get? (rowKey command.proof.tenantId command.proof.runId) = some run)
    (hstores : row.Stores command.proof.tenantId command.proof.runId lease)
    (hmatches : lease.matchesProof command.proof = true) (now : DateTime) :
    db.Concludes (evaluateAuthority command.proof (some lease) (some run.runStatus) now)
      (db.RenewalDue command now row run) (RenewalFits command now row)
      (db.renewMatched command lease (evaluateAuthority command.proof (some lease) (some run.runStatus) now)
        now) := by
  generalize hauthority : evaluateAuthority command.proof (some lease) (some run.runStatus) now = authority
  have hdue : (!authority.authoritative || command.expectedVersion != lease.leaseVersion) = false ↔
      db.RenewalDue command now row run := by
    rw [Bool.or_eq_false_iff, Bool.not_eq_false', ← hauthority, evaluateAuthority_eq_true, bne_eq_false_iff_eq]
    constructor
    · rintro ⟨⟨-, hreleased, howned, hlive⟩, hversion⟩
      exact ⟨⟨hrow, hrun, (matchesProof_iff hstores).mp hmatches⟩, hstores.released ▸ hreleased, howned,
        hstores.expires ▸ hlive, by rw [hversion, hstores.version]⟩
    · intro h
      exact ⟨⟨hmatches, hstores.released.trans h.held, h.owned, hstores.expires.symm ▸ h.live⟩,
        PositiveCounter.value_injective (h.version.symm.trans hstores.version.symm)⟩
  unfold renewMatched
  cases hrefused : !authority.authoritative || command.expectedVersion != lease.leaseVersion with
  | true =>
    refine .refused fun h => ?_
    rw [hdue.mpr h] at hrefused
    cases hrefused
  | false =>
    have due := hdue.mp hrefused
    rw [if_neg Bool.false_ne_true]
    by_cases hversion : lease.leaseVersion.value = maxSignedBigint
    · obtain ⟨e, he⟩ := PositiveCounter.next_error hversion
      rw [he]
      exact .raised _ due fun h => absurd h.version (by rw [← hstores.version, hversion]; exact lt_irrefl _)
    obtain ⟨nextVersion, hnext⟩ := PositiveCounter.next_ok hversion
    by_cases hlast : maxMicros < now.micros + command.duration.micros
    · rw [hnext, DateTime.add_error hlast]
      exact .raised _ due fun h => absurd h.expiry (not_le.mpr hlast)
    have hpositive := command.duration.micros_pos
    obtain ⟨expiry, hadd, hmicros⟩ := DateTime.add_ok hpositive.le hlast
    have hlate : now < expiry := by
      rw [DateTime.lt_iff, hmicros]
      omega
    have hroom : row.leaseVersion < maxSignedBigint := by
      rw [← hstores.version]
      exact lt_of_le_of_ne lease.leaseVersion.range.2 hversion
    have hchecks := checks_renewed nextVersion command.duration due.held hlate
    simp only [hnext, hadd, raising_ok, raised_ok, bind, Except.bind,
      updateLease_of_version hrow hstores.version,
      checkedRow]
    by_cases hacquired : row.acquiredAt ≤ now
    · rw [decide_eq_true hacquired] at hchecks
      have hordered : lease.acquiredAt ≤ now ∧ now ≤ expiry := ⟨hstores.acquired ▸ hacquired, hlate.le⟩
      obtain ⟨renewBy, hrenew, -⟩ := renewByAt_ok hlast
      simp only [hchecks, dif_pos, Except.map, LeaseMetadata.new, hordered, and_self, hrenew,
        raising_ok, raised_ok]
      exact .applied _ _ ⟨hroom, not_lt.mp hlast, hacquired⟩ rfl
    · rw [decide_eq_false hacquired] at hchecks
      simp only [hchecks, Bool.false_eq_true, dif_neg, not_false_eq_true, Except.map]
      exact .raised _ due fun h => hacquired h.acquired

theorem exists_released (lease : WorkerLeaseRecord) (version : LeaseVersion) (h : lease.acquiredAt ≤ now) :
    ∃ released, WorkerLeaseRecord.new { lease.toWorkerLeaseFields with
      leaseVersion := version
      releasedAt := some now } = .ok released := by
  obtain ⟨hheartbeat, hexpires, hdigest, -⟩ := lease.ordered
  have hvalid : WorkerLeaseFields.postInit { lease.toWorkerLeaseFields with
      leaseVersion := version
      releasedAt := some now } = .ok () := by
    simp [WorkerLeaseFields.postInit, hdigest, hheartbeat.not_gt, hexpires.not_ge, h.not_gt, bind, Except.bind]
  exact ⟨_, construct_of_ok _ hvalid⟩

theorem releaseMatched_concludes {command : ReleaseLeaseCommand}
    (hrow : db.workerLeases.get? (rowKey command.proof.tenantId command.proof.runId) = some row)
    (hrun : db.runs.get? (rowKey command.proof.tenantId command.proof.runId) = some run)
    (hstores : row.Stores command.proof.tenantId command.proof.runId lease)
    (hmatches : lease.matchesProof command.proof = true) (now : DateTime) :
    db.Concludes (evaluateAuthority command.proof (some lease) (some run.runStatus) now)
      (db.ReleaseDue command now row run) (ReleaseFits now row)
      (db.releaseMatched command lease (evaluateAuthority command.proof (some lease) (some run.runStatus) now)
        run.runStatus now) := by
  unfold releaseMatched
  cases hreleased : lease.releasedAt with
  | some releasedAt =>
    have hview : evaluateAuthority command.proof (some lease) (some run.runStatus) now =
        .matchedNotCurrent lease.metadata := by
      simp [evaluateAuthority, hmatches, hreleased]
    rw [hview, Option.isSome_some, if_pos rfl]
    refine .refused fun h => ?_
    have hheld := h.held
    rw [← hstores.released, hreleased] at hheld
    cases hheld
  | none =>
    generalize hauthority : evaluateAuthority command.proof (some lease) (some run.runStatus) now = authority
    have hlive :
        authority.authoritative = true ↔ isOwnable run.runStatus = true ∧ now < row.leaseExpiresAt := by
      rw [← hauthority, evaluateAuthority_eq_true, hstores.expires]
      simp only [hmatches, hreleased, true_and]
    have hdue : (command.expectedVersion != lease.leaseVersion ||
        (isOwnable run.runStatus && !authority.authoritative)) = false ↔ db.ReleaseDue command now row run := by
      rw [Bool.or_eq_false_iff, bne_eq_false_iff_eq, Bool.and_eq_false_imp]
      simp only [Bool.not_eq_false', hlive]
      constructor
      · rintro ⟨hversion, hheld⟩
        exact ⟨⟨hrow, hrun, (matchesProof_iff hstores).mp hmatches⟩, hstores.released ▸ hreleased,
          fun howned => (hheld howned).2, by rw [hversion, hstores.version]⟩
      · intro h
        exact ⟨PositiveCounter.value_injective (h.version.symm.trans hstores.version.symm),
          fun howned => ⟨howned, h.live howned⟩⟩
    rw [Option.isSome_none, if_neg Bool.false_ne_true]
    cases hrefused : command.expectedVersion != lease.leaseVersion ||
        (isOwnable run.runStatus && !authority.authoritative) with
    | true =>
      refine .refused fun h => ?_
      rw [hdue.mpr h] at hrefused
      cases hrefused
    | false =>
      have due := hdue.mp hrefused
      rw [if_neg Bool.false_ne_true]
      by_cases hversion : lease.leaseVersion.value = maxSignedBigint
      · obtain ⟨e, he⟩ := PositiveCounter.next_error hversion
        rw [he]
        exact .raised _ due fun h => absurd h.version (by rw [← hstores.version, hversion]; exact lt_irrefl _)
      obtain ⟨nextVersion, hnext⟩ := PositiveCounter.next_ok hversion
      have hroom : row.leaseVersion < maxSignedBigint := by
        rw [← hstores.version]
        exact lt_of_le_of_ne lease.leaseVersion.range.2 hversion
      have hchecks : ({ row.toWorkerLeaseColumns with
          leaseVersion := nextVersion.value
          releasedAt := some now } : WorkerLeaseColumns DateTime).checks = _ := checks_released
      simp only [hnext, raising_ok, raised_ok, bind, Except.bind, updateLease_of_version hrow hstores.version,
        checkedRow]
      by_cases hacquired : row.acquiredAt ≤ now
      · rw [decide_eq_true hacquired] at hchecks
        obtain ⟨released, hnew⟩ := exists_released lease nextVersion (hstores.acquired ▸ hacquired)
        simp only [hchecks, dif_pos, Except.map, hnew, raising_ok, raised_ok]
        exact .applied _ _ ⟨hroom, hacquired⟩ rfl
      · rw [decide_eq_false hacquired] at hchecks
        simp only [hchecks, Bool.false_eq_true, dif_neg, not_false_eq_true, Except.map]
        exact .raised _ due fun h => hacquired h.acquired

/-- The three ways in which a proof matches no lease: there is no run, the run was never
    claimed, or its lease is another one. -/
def Unmatched (db : Database) (proof : LeaseAuthorityProof) : Prop :=
  let key := rowKey proof.tenantId proof.runId
  db.runs.get? key = none ∨ db.workerLeases.get? key = none ∨
    ∃ row lease, db.workerLeases.get? key = some row ∧
      decodeWorkerLease (row.mapping proof.tenantId proof.runId) = .ok lease ∧
      lease.matchesProof proof = false

/-- The run is there and was never claimed. -/
def Unclaimed (db : Database) (proof : LeaseAuthorityProof) : Prop :=
  let key := rowKey proof.tenantId proof.runId
  (db.runs.get? key).isSome ∧ db.workerLeases.get? key = none

variable {proof : LeaseAuthorityProof}
  {matched : WorkerLeaseRecord → LeaseAuthority → String → Except Raised (Database × ConditionalLeaseOutcome)}

theorem conditionalMutation_of_noRun (hrun : db.runs.get? (rowKey proof.tenantId proof.runId) = none) :
    db.conditionalMutation proof now matched = .ok (db, notApplied .notCurrent) := by
  simp only [conditionalMutation, hrun]

/-- The join finds no status for a run that was never claimed. -/
theorem conditionalMutation_of_unclaimed (h : db.Unclaimed proof) :
    db.conditionalMutation proof now matched = .error corrupt := by
  obtain ⟨hsome, hrow⟩ := h
  obtain ⟨run, hrun⟩ := Option.isSome_iff_exists.mp hsome
  simp only [conditionalMutation, hrun, loadAuthorityState_of_none (.inl hrow), raised_ok]
  rfl

theorem conditionalMutation_of_rows
    (hrow : db.workerLeases.get? (rowKey proof.tenantId proof.runId) = some row)
    (hrun : db.runs.get? (rowKey proof.tenantId proof.runId) = some run)
    (hlease : decodeWorkerLease (row.mapping proof.tenantId proof.runId) = .ok lease) :
    db.conditionalMutation proof now matched =
      if lease.matchesProof proof then
        matched lease (evaluateAuthority proof (some lease) (some run.runStatus) now) run.runStatus
      else .ok (db, notApplied .notCurrent) := by
  simp only [conditionalMutation, hrun, loadAuthorityState_of_rows hrow hrun hlease, raised_ok, bind,
    Except.bind, beq_self_eq_true, require_true]
  cases hmatches : lease.matchesProof proof with
  | true => rfl
  | false => simp [evaluateAuthority, hmatches, pure, Except.pure]

/-- What the callers of a renewal or release are promised: an answer, which is a refusal with the
    view of the authority query where the operation is not applied. -/
structure ExplainsRefusal (db : Database) (proof : LeaseAuthorityProof) (now : DateTime)
    (result : Except Failure ConditionalLeaseOutcome) : Prop where
  answered : ∃ outcome, result = .ok outcome ∧
    (outcome.applied = false → db.getAuthority proof now = .ok outcome.authority)
  unmatched : db.Unmatched proof → result = .ok (notApplied .notCurrent)
  intact : result ≠ .error (.lease .dataCorruption)

theorem ExplainsRefusal.of_answer {result : Except Failure ConditionalLeaseOutcome}
    {outcome : ConditionalLeaseOutcome} (h : result = .ok outcome)
    (hview : outcome.applied = false → db.getAuthority proof now = .ok outcome.authority)
    (hunmatched : db.Unmatched proof → result = .ok (notApplied .notCurrent)) :
    db.ExplainsRefusal proof now result :=
  ⟨⟨outcome, h, hview⟩, hunmatched, by rw [h]; simp⟩

/-- A conditional mutation explains its refusals exactly when the run, if it is there, was claimed
    before, and a mutation that nothing refuses can be stored. -/
theorem explainsRefusal_iff {due : WorkerLeaseRow → RunRow → Prop} {fits : WorkerLeaseRow → Prop}
    (hfinds : ∀ row run, due row run → db.Finds proof row run)
    (hmatched : ∀ row run lease, db.workerLeases.get? (rowKey proof.tenantId proof.runId) = some row →
      db.runs.get? (rowKey proof.tenantId proof.runId) = some run →
      row.Stores proof.tenantId proof.runId lease → lease.matchesProof proof = true →
      db.Concludes (evaluateAuthority proof (some lease) (some run.runStatus) now) (due row run) (fits row)
        (matched lease (evaluateAuthority proof (some lease) (some run.runStatus) now) run.runStatus)) :
    db.ExplainsRefusal proof now (db.settle mutationFailure (db.conditionalMutation proof now matched)).2 ↔
      ¬db.Unclaimed proof ∧ ∀ row run, due row run → fits row := by
  constructor
  · intro h
    refine ⟨fun hunclaimed => h.intact ?_, fun row run hdue => ?_⟩
    · rw [conditionalMutation_of_unclaimed hunclaimed]
      rfl
    · obtain ⟨hrow, hrun, hnames⟩ := hfinds row run hdue
      obtain ⟨lease, hlease, hstores⟩ := row.exists_lease proof.tenantId proof.runId
      have hmatches := (matchesProof_iff hstores).mpr hnames
      have hconcludes := hmatched row run lease hrow hrun hstores hmatches
      obtain ⟨outcome, houtcome, -⟩ := h.answered
      rw [conditionalMutation_of_rows hrow hrun hlease, if_pos hmatches] at houtcome
      generalize matched lease _ run.runStatus = x at hconcludes houtcome
      cases hconcludes with
      | refused hnot => exact absurd hdue hnot
      | applied next outcome hfits => exact hfits
      | raised e => cases houtcome
  rintro ⟨hclaimed, hfits⟩
  cases hrun : db.runs.get? (rowKey proof.tenantId proof.runId) with
  | none =>
    rw [conditionalMutation_of_noRun hrun]
    exact .of_answer rfl (fun _ => getAuthority_of_none (.inr hrun) now) fun _ => rfl
  | some run =>
    cases hrow : db.workerLeases.get? (rowKey proof.tenantId proof.runId) with
    | none => exact absurd ⟨by simp [hrun], hrow⟩ hclaimed
    | some row =>
      obtain ⟨lease, hlease, hstores⟩ := row.exists_lease proof.tenantId proof.runId
      have hquery := getAuthority_of_rows hrow hrun hlease now
      rw [conditionalMutation_of_rows hrow hrun hlease]
      cases hmatches : lease.matchesProof proof with
      | false =>
        have hview : evaluateAuthority proof (some lease) (some run.runStatus) now = .notCurrent := by
          simp [evaluateAuthority, hmatches]
        exact .of_answer rfl (fun _ => hquery.trans (congrArg Except.ok hview)) fun _ => rfl
      | true =>
        have hmatched' : ¬db.Unmatched proof := by
          rintro (hnone | hnone | ⟨other, found, hother, hfound, hmiss⟩)
          · cases hnone.symm.trans hrun
          · cases hnone.symm.trans hrow
          · cases hrow.symm.trans hother
            cases Except.ok.inj (hlease.symm.trans hfound)
            cases hmiss.symm.trans hmatches
        have hconcludes := hmatched row run lease hrow hrun hstores hmatches
        rw [if_pos rfl]
        generalize matched lease _ run.runStatus = x at hconcludes
        cases hconcludes with
        | refused => exact .of_answer rfl (fun _ => hquery) fun h => absurd h hmatched'
        | applied next outcome _ happlied =>
          refine .of_answer rfl (fun hnot => ?_) fun h => absurd h hmatched'
          cases happlied.symm.trans hnot
        | raised e hdue hnot => exact absurd (hfits row run hdue) hnot

/-- Renewals and releases are answered, and explain every refusal as the authority query does,
    exactly when the run was claimed before, if it is there, and the lease of one that nothing
    refuses can be stored. -/
theorem refusals_explained_iff (db : Database) (now : DateTime) :
    (∀ command : RenewLeaseCommand,
      db.ExplainsRefusal command.proof now (db.renew command now).2 ↔ ¬db.Unclaimed command.proof ∧
        ∀ row run, db.RenewalDue command now row run → RenewalFits command now row) ∧
    (∀ command : ReleaseLeaseCommand,
      db.ExplainsRefusal command.proof now (db.release command now).2 ↔ ¬db.Unclaimed command.proof ∧
        ∀ row run, db.ReleaseDue command now row run → ReleaseFits now row) := by
  refine ⟨fun command => ?_, fun command => ?_⟩
  · exact explainsRefusal_iff (fun _ _ hdue => hdue.finds) fun row run lease hrow hrun hstores hmatches =>
      renewMatched_concludes hrow hrun hstores hmatches now
  · exact explainsRefusal_iff (fun _ _ hdue => hdue.finds) fun row run lease hrow hrun hstores hmatches =>
      releaseMatched_concludes hrow hrun hstores hmatches now

end Database

namespace Sample

def worker : WorkerId := ⟨"worker-1", by decide⟩

def claimId : LeaseClaimId :=
  ⟨1000 * 2 ^ 80 + 7 * 2 ^ 76 + 2 * 2 ^ 62, by decide, by decide, by decide⟩

def token : LeaseToken := ⟨List.replicate 32 7, rfl⟩
def proof : LeaseAuthorityProof := ⟨tenant, runId, worker, claimId, .one, token⟩
def renewal : RenewLeaseCommand := ⟨proof, .one, ⟨30, by decide⟩⟩

theorem longest_range : 10 ≤ 30 ∧ 30 ≤ 30 := by
  decide

def created : Database := Database.empty.putRun queuedRun

end Sample

open Sample in
/-- The renewal of an unclaimed run reports corrupt data where the authority query finds
    that the lease is not current. -/
theorem Database.unclaimed_renewal_not_explained :
    (created.renew renewal opening).2 = .error (.lease .dataCorruption) ∧
      ¬created.ExplainsRefusal proof opening (created.renew renewal opening).2 := by
  suffices hcorrupt : (created.renew renewal opening).2 = .error (.lease .dataCorruption) from
    ⟨hcorrupt, fun h => h.intact hcorrupt⟩
  have hrun : created.runs.get? (rowKey tenant runId) = some queuedRun.row :=
    Dict.get?_insert_self Dict.empty _ _
  have hunclaimed : created.Unclaimed proof := ⟨by rw [proof, hrun]; rfl, rfl⟩
  rw [Database.renew, show renewal.proof = proof from rfl, conditionalMutation_of_unclaimed hunclaimed]
  rfl

end Zhiyi
