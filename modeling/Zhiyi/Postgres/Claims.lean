import Zhiyi.Postgres.ClaimAge
import Zhiyi.Postgres.Recovery

set_option autoImplicit false

/-! Claims as a queue. A claim takes the head of the eligible runs of its tenant; while
granted leases last, claims take them one after the other. -/
namespace Zhiyi
open Python

/-- Spelled out, since the order of datetimes hides their decidable equality. -/
theorem beq_dateTime (d : DateTime) : (d == d) = true := by
  have h : (d == d) = decide (d = d) := rfl
  rw [h]
  exact decide_eq_true rfl

/-- A claim with its token and the readings of its transaction: at its request, once more
    before the loop, and in the loop. -/
structure ClaimRequest where
  command : ClaimLeaseCommand
  token : LeaseToken
  requestNow : DateTime
  unusedNow : DateTime
  mutationNow : DateTime
  clock : List DateTime
  raceNow : DateTime

namespace Database

def execute (db : Database) (r : ClaimRequest) : Option (Database × Except Failure LeaseClaimOutcome) :=
  db.claim r.command r.token r.requestNow (r.unusedNow :: r.mutationNow :: r.clock) r.raceNow

/-- A claim id that its tenant has not used, inside its window, and a clock that does not go back. -/
structure Unused (db : Database) (r : ClaimRequest) : Prop where
  age : validateClaimAge r.command.claimId r.requestNow = .ok ()
  receipt : db.workerLeaseClaimReceipts.get? (claimRowKey r.command.tenantId r.command.claimId) = none
  lease : ∀ runId row, db.workerLeases.get? (rowKey r.command.tenantId runId) = some row →
    row.claimId ≠ r.command.claimId.value
  clock : r.requestNow ≤ r.mutationNow

structure Fresh (db : Database) (r : ClaimRequest) : Prop extends Unused db r where
  exact : r.command.claimId.Exact

/-- Queued, without an unreleased, strictly unexpired lease. -/
structure Eligible (db : Database) (tenantId : TenantId) (now : DateTime) (runId : RunId) : Prop where
  queued : ∃ run, db.runs.get? (rowKey tenantId runId) = some run ∧ run.runStatus = "queued"
  free : ∀ row, db.workerLeases.get? (rowKey tenantId runId) = some row → row.releasedAt = none →
    row.leaseExpiresAt ≤ now

/-- The rows that `_select_eligible_run` chooses from, in its order. -/
def eligibleRows (db : Database) (tenantId : TenantId) (now : DateTime) : List (RunRowKey × RunRow) :=
  (db.runs.items.filter fun p => (ofLex p.1).1 == tenantId && db.isEligible p.1 p.2 now).insertionSort
    fun p q => queueKey p ≤ queueKey q

def queue (db : Database) (tenantId : TenantId) (now : DateTime) : List RunId :=
  (db.eligibleRows tenantId now).map fun p => (ofLex p.1).2

variable {db next : Database} {tenantId : TenantId} {now later : DateTime} {runId : RunId}

theorem selectEligibleRun_eq : db.selectEligibleRun tenantId now = (db.queue tenantId now).head? := by
  rw [queue, List.head?_map]
  rfl

theorem mem_eligibleRows {p : RunRowKey × RunRow} : p ∈ db.eligibleRows tenantId now ↔
    ∃ runId, p.1 = rowKey tenantId runId ∧ db.runs.get? (rowKey tenantId runId) = some p.2 ∧
      db.isEligible p.1 p.2 now = true := by
  obtain ⟨key, run⟩ := p
  simp only [eligibleRows, List.mem_insertionSort, List.mem_filter, Dict.mem_items_iff, Bool.and_eq_true,
    beq_iff_eq]
  constructor
  · rintro ⟨hget, rfl, heligible⟩
    exact ⟨(ofLex key).2, rfl, hget, heligible⟩
  · rintro ⟨runId, rfl, hget, heligible⟩
    exact ⟨hget, rfl, heligible⟩

theorem isEligible_iff {run : RunRow} (hrun : db.runs.get? (rowKey tenantId runId) = some run) :
    db.isEligible (rowKey tenantId runId) run now = true ↔ db.Eligible tenantId now runId := by
  simp only [isEligible, Bool.and_eq_true, beq_iff_eq]
  constructor
  · rintro ⟨hqueued, hfree⟩
    refine ⟨⟨run, hrun, hqueued⟩, fun row hrow hreleased => ?_⟩
    simpa [hrow, hreleased] using hfree
  · rintro ⟨⟨other, hother, hqueued⟩, hfree⟩
    obtain rfl := Option.some.inj (hrun.symm.trans hother)
    refine ⟨hqueued, ?_⟩
    cases hrow : db.workerLeases.get? (rowKey tenantId runId) with
    | none => rfl
    | some row =>
      cases hreleased : row.releasedAt with
      | none => simp [hreleased, hfree row hrow hreleased]
      | some releasedAt => simp [hreleased]

theorem mem_queue : runId ∈ db.queue tenantId now ↔ db.Eligible tenantId now runId := by
  rw [queue, List.mem_map]
  constructor
  · rintro ⟨p, hp, rfl⟩
    obtain ⟨runId, hkey, hget, heligible⟩ := mem_eligibleRows.mp hp
    rw [hkey] at heligible
    rw [show (ofLex p.1).2 = runId by rw [hkey]; rfl]
    exact (isEligible_iff hget).mp heligible
  · intro h
    obtain ⟨run, hrun, -⟩ := h.queued
    exact ⟨(rowKey tenantId runId, run),
      mem_eligibleRows.mpr ⟨runId, rfl, hrun, (isEligible_iff hrun).mpr h⟩, rfl⟩

theorem Eligible.mono (h : db.Eligible tenantId now runId) (hle : now ≤ later) :
    db.Eligible tenantId later runId :=
  ⟨h.queued, fun row hrow hreleased => (h.free row hrow hreleased).trans hle⟩

theorem eligible_congr (hruns : next.runs = db.runs)
    (hlease : next.workerLeases.get? (rowKey tenantId runId) =
      db.workerLeases.get? (rowKey tenantId runId)) :
    next.Eligible tenantId now runId ↔ db.Eligible tenantId now runId := by
  constructor
  · rintro ⟨hqueued, hfree⟩
    exact ⟨hruns ▸ hqueued, hlease ▸ hfree⟩
  · rintro ⟨hqueued, hfree⟩
    exact ⟨hruns.symm ▸ hqueued, hlease.symm ▸ hfree⟩

theorem eligibleRows_nodup : (db.eligibleRows tenantId now).Nodup := by
  have hitems : db.runs.items.Nodup :=
    db.runs.ascending.imp fun hlt he => by subst he; exact lt_irrefl _ hlt
  exact ((List.perm_insertionSort _ _).nodup_iff).mpr (hitems.filter _)

theorem eligibleRows_sorted :
    (db.eligibleRows tenantId now).Pairwise fun p q => queueKey p ≤ queueKey q := by
  have : Std.Total fun p q : RunRowKey × RunRow => queueKey p ≤ queueKey q :=
    ⟨fun p q => le_total (queueKey p) (queueKey q)⟩
  have : IsTrans (RunRowKey × RunRow) fun p q => queueKey p ≤ queueKey q :=
    ⟨fun _ _ _ h k => le_trans h k⟩
  exact List.pairwise_insertionSort _ _

theorem eq_of_queueKey {p q : RunRowKey × RunRow} (hp : p ∈ db.eligibleRows tenantId now)
    (hq : q ∈ next.eligibleRows tenantId later) (hruns : next.runs = db.runs)
    (h : queueKey p = queueKey q) : p = q := by
  obtain ⟨runId, hkey, hget, -⟩ := mem_eligibleRows.mp hp
  obtain ⟨otherId, hkey', hget', -⟩ := mem_eligibleRows.mp hq
  have hid : runId = otherId := by
    have := congrArg (fun k => (ofLex k).2) h
    simpa [queueKey, hkey, hkey', rowKey] using this
  subst hid
  rw [hruns, hget] at hget'
  exact Prod.ext (hkey.trans hkey'.symm) (Option.some.inj hget')

theorem queue_nodup : (db.queue tenantId now).Nodup := by
  refine (List.nodup_map_iff_inj_on eligibleRows_nodup).mpr fun p hp q hq h => ?_
  obtain ⟨runId, hkey, hget, -⟩ := mem_eligibleRows.mp hp
  obtain ⟨otherId, hkey', hget', -⟩ := mem_eligibleRows.mp hq
  have hid : runId = otherId := by simpa [hkey, hkey', rowKey] using h
  subst hid
  rw [hget] at hget'
  exact Prod.ext (hkey.trans hkey'.symm) (Option.some.inj hget')

theorem queue_eq_of_mem {rest : List (RunRowKey × RunRow)} (hruns : next.runs = db.runs)
    (hsub : rest.Sublist (db.eligibleRows tenantId now))
    (hmem : ∀ p, p ∈ next.eligibleRows tenantId later ↔ p ∈ rest) :
    next.queue tenantId later = rest.map fun p => (ofLex p.1).2 := by
  have hperm : (next.eligibleRows tenantId later).Perm rest :=
    (List.perm_ext_iff_of_nodup eligibleRows_nodup (hsub.nodup eligibleRows_nodup)).mpr hmem
  rw [queue, hperm.eq_of_pairwise (fun p q hp hq hle hge => ?_) eligibleRows_sorted
    (eligibleRows_sorted.sublist hsub)]
  exact (eq_of_queueKey (hsub.subset hq) hp hruns (le_antisymm hge hle)).symm

theorem queue_congr (hruns : next.runs = db.runs)
    (h : ∀ runId, next.Eligible tenantId later runId ↔ db.Eligible tenantId now runId) :
    next.queue tenantId later = db.queue tenantId now := by
  refine queue_eq_of_mem hruns (List.Sublist.refl _) fun p => ?_
  rw [mem_eligibleRows, mem_eligibleRows]
  refine exists_congr fun runId => and_congr_right fun hkey => ?_
  rw [hruns]
  refine and_congr_right fun hget => ?_
  rw [hkey, isEligible_iff hget, isEligible_iff (hruns ▸ hget), h]

theorem queue_tail (hruns : next.runs = db.runs) {rest : List RunId}
    (hqueue : db.queue tenantId now = runId :: rest)
    (h : ∀ other, next.Eligible tenantId later other ↔ db.Eligible tenantId now other ∧ other ≠ runId) :
    next.queue tenantId later = rest := by
  have hnodup : (db.queue tenantId now).Nodup := queue_nodup
  rw [queue] at hqueue hnodup
  obtain ⟨p, tail, hrows, hp, rfl⟩ := List.map_eq_cons_iff.mp hqueue
  have hsub : tail.Sublist (db.eligibleRows tenantId now) := hrows ▸ List.sublist_cons_self p tail
  refine queue_eq_of_mem hruns hsub fun q => ?_
  have hout : ∀ q ∈ tail, (ofLex q.1).2 ≠ runId := by
    intro q hq he
    rw [hrows, List.map_cons, List.nodup_cons, hp] at hnodup
    exact hnodup.1 (he ▸ List.mem_map_of_mem (f := fun p => (ofLex p.1).2) hq)
  constructor
  · intro hq
    obtain ⟨other, hkey, hget, heligible⟩ := mem_eligibleRows.mp hq
    rw [hkey, isEligible_iff hget, h] at heligible
    rw [hruns] at hget
    have hmem : q ∈ db.eligibleRows tenantId now :=
      mem_eligibleRows.mpr ⟨other, hkey, hget, hkey ▸ (isEligible_iff hget).mpr heligible.1⟩
    rw [hrows, List.mem_cons] at hmem
    rcases hmem with rfl | hmem
    · refine absurd ?_ heligible.2
      rw [← hp, hkey]
      rfl
    · exact hmem
  · intro hq
    obtain ⟨other, hkey, hget, heligible⟩ := mem_eligibleRows.mp (hsub.subset hq)
    have hne : other ≠ runId := by
      have := hout q hq
      rwa [hkey] at this
    have hget' : next.runs.get? (rowKey tenantId other) = some q.2 := hruns ▸ hget
    rw [hkey, isEligible_iff hget] at heligible
    exact mem_eligibleRows.mpr ⟨other, hkey, hget', hkey ▸ (isEligible_iff hget').mpr ((h other).mpr
      ⟨heligible, hne⟩)⟩

/-- The lease of a claim cannot be stored: a counter has no next value, or no datetime
    shows its expiry. -/
def Exhausted (db : Database) (command : ClaimLeaseCommand) (mutationNow : DateTime) (runId : RunId) : Prop :=
  (∃ row, db.workerLeases.get? (rowKey command.tenantId runId) = some row ∧
    (row.attemptNo = maxSignedBigint ∨ row.leaseVersion = maxSignedBigint)) ∨
  maxMicros < mutationNow.micros + command.duration.micros

variable {r : ClaimRequest}

theorem loadLease_cases (db : Database) (tenantId : TenantId) (runId : RunId) :
    (db.workerLeases.get? (rowKey tenantId runId) = none ∧ db.loadLease tenantId runId = .ok none) ∨
      ∃ row lease, db.workerLeases.get? (rowKey tenantId runId) = some row ∧
        row.Stores tenantId runId lease ∧ db.loadLease tenantId runId = .ok (some lease) := by
  cases hrow : db.workerLeases.get? (rowKey tenantId runId) with
  | none => exact .inl ⟨rfl, by rw [loadLease, hrow]⟩
  | some row =>
    obtain ⟨lease, hlease, hstores⟩ := row.exists_lease tenantId runId
    refine .inr ⟨row, lease, rfl, hstores, ?_⟩
    simp only [loadLease, hrow, hlease]
    rfl

structure Leases (r : ClaimRequest) (runId : RunId) (lease : WorkerLeaseRecord) : Prop where
  tenant : lease.tenantId = r.command.tenantId
  run : lease.runId = runId
  worker : lease.workerId = r.command.workerId
  claim : lease.claimId = r.command.claimId
  duration : lease.duration = r.command.duration
  acquired : lease.acquiredAt = r.mutationNow
  expires : lease.leaseExpiresAt.micros = r.mutationNow.micros + r.command.duration.micros
  released : lease.releasedAt = none

theorem Leases.late {lease : WorkerLeaseRecord} (h : Leases r runId lease) :
    r.mutationNow < lease.leaseExpiresAt := by
  have hpositive := r.command.duration.micros_pos
  rw [DateTime.lt_iff, h.expires]
  omega

/-- The values that `_claim_transaction` gives the lease of a claim. -/
def leaseFields (r : ClaimRequest) (runId : RunId) (attemptNo : LeaseAttemptNo)
    (leaseVersion : LeaseVersion) (leaseExpiresAt : DateTime) : WorkerLeaseFields where
  tenantId := r.command.tenantId
  runId := runId
  workerId := r.command.workerId
  claimId := r.command.claimId
  tokenDigest := digestLeaseToken r.token
  attemptNo := attemptNo
  leaseVersion := leaseVersion
  duration := r.command.duration
  acquiredAt := r.mutationNow
  heartbeatAt := r.mutationNow
  leaseExpiresAt := leaseExpiresAt
  releasedAt := none

theorem leaseFields_valid (r : ClaimRequest) (runId : RunId) (attemptNo : LeaseAttemptNo)
    (leaseVersion : LeaseVersion) {leaseExpiresAt : DateTime} (hlate : r.mutationNow < leaseExpiresAt) :
    (leaseFields r runId attemptNo leaseVersion leaseExpiresAt).postInit = .ok () := by
  have hdigest : (digestLeaseToken r.token).length = 32 := Sha256.digest_length _
  simp [leaseFields, WorkerLeaseFields.postInit, hdigest, hlate.not_ge, bind, Except.bind]

inductive NextCounters : Option WorkerLeaseRecord → LeaseAttemptNo → LeaseVersion → Prop
  | first : NextCounters none .one .one
  | next (lease : WorkerLeaseRecord) {attemptNo leaseVersion : PositiveCounter}
    (hattempt : lease.attemptNo.next = .ok attemptNo) (hversion : lease.leaseVersion.next = .ok leaseVersion) :
    NextCounters (some lease) attemptNo leaseVersion

theorem NextCounters.nextLease_eq {current : Option WorkerLeaseRecord}
    {attemptNo leaseVersion : PositiveCounter} (h : NextCounters current attemptNo leaseVersion) :
    nextLease r.command r.token runId current r.mutationNow =
      (r.mutationNow.add r.command.duration.micros >>= fun leaseExpiresAt =>
        WorkerLeaseRecord.new (leaseFields r runId attemptNo leaseVersion leaseExpiresAt)) := by
  cases h with
  | first => rfl
  | next lease hattempt hversion =>
    simp only [nextLease, hattempt, hversion, bind, Except.bind]
    rfl

theorem nextLease_of_counters {current : Option WorkerLeaseRecord} {attemptNo leaseVersion : PositiveCounter}
    (h : NextCounters current attemptNo leaseVersion) :
    (¬ maxMicros < r.mutationNow.micros + r.command.duration.micros ∧ ∃ lease,
      nextLease r.command r.token runId current r.mutationNow = .ok lease ∧ Leases r runId lease) ∨
    (maxMicros < r.mutationNow.micros + r.command.duration.micros ∧
      ∃ e, nextLease r.command r.token runId current r.mutationNow = .error e) := by
  have hpositive := r.command.duration.micros_pos
  rw [h.nextLease_eq]
  by_cases hlate : maxMicros < r.mutationNow.micros + r.command.duration.micros
  · refine .inr ⟨hlate, .overflowError "date value out of range", ?_⟩
    rw [DateTime.add_error hlate]
    rfl
  · obtain ⟨leaseExpiresAt, hadd, hmicros⟩ := DateTime.add_ok hpositive.le hlate
    have hafter : r.mutationNow < leaseExpiresAt := by
      rw [DateTime.lt_iff, hmicros]
      omega
    have hvalid := leaseFields_valid r runId attemptNo leaseVersion hafter
    refine .inl ⟨hlate, ⟨_, hvalid⟩, ?_, ⟨rfl, rfl, rfl, rfl, rfl, rfl, hmicros, rfl⟩⟩
    simp only [bind, Except.bind, hadd]
    exact construct_of_ok _ hvalid

/-- The next lease exists unless its counters or its expiry are exhausted. -/
inductive Continues (db : Database) (r : ClaimRequest) (runId : RunId)
    (current : Option WorkerLeaseRecord) : Prop
  | leases (lease : WorkerLeaseRecord) (hroom : ¬ db.Exhausted r.command r.mutationNow runId)
    (hnext : nextLease r.command r.token runId current r.mutationNow = .ok lease) (hl : Leases r runId lease)
  | exhausted (e : PyError) (hfull : db.Exhausted r.command r.mutationNow runId)
    (hnext : nextLease r.command r.token runId current r.mutationNow = .error e)

theorem nextLease_continues (db : Database) (r : ClaimRequest) (runId : RunId) :
    ∃ current, db.loadLease r.command.tenantId runId = .ok current ∧
      current.isSome = (db.workerLeases.get? (rowKey r.command.tenantId runId)).isSome ∧
      (∀ lease, current = some lease → ∃ row, row.Stores r.command.tenantId runId lease ∧
        db.workerLeases.get? (rowKey r.command.tenantId runId) = some row) ∧
      db.Continues r runId current := by
  rcases loadLease_cases db r.command.tenantId runId with ⟨hnone, hload⟩ | ⟨row, lease, hrow, hstores, hload⟩
  · refine ⟨none, hload, by rw [hnone]; rfl, by simp, ?_⟩
    rcases @nextLease_of_counters runId r _ _ _ .first with
      ⟨hroom, lease, hnext, hl⟩ | ⟨hlate, e, hnext⟩
    · refine .leases lease ?_ hnext hl
      rintro (⟨row, hrow, -⟩ | hlate)
      · rw [hnone] at hrow
        cases hrow
      · exact hroom hlate
    · exact .exhausted e (.inr hlate) hnext
  · refine ⟨some lease, hload, by rw [hrow]; rfl, ?_, ?_⟩
    · intro other hother
      exact ⟨row, Option.some.inj hother ▸ hstores, hrow⟩
    by_cases hattempt : lease.attemptNo.value = maxSignedBigint
    · obtain ⟨e, he⟩ := PositiveCounter.next_error hattempt
      refine .exhausted e (.inl ⟨row, hrow, .inl (hstores.attempt ▸ hattempt)⟩) ?_
      simp only [nextLease, he, bind, Except.bind]
    by_cases hversion : lease.leaseVersion.value = maxSignedBigint
    · obtain ⟨e, he⟩ := PositiveCounter.next_error hversion
      obtain ⟨attemptNo, ha⟩ := PositiveCounter.next_ok hattempt
      refine .exhausted e (.inl ⟨row, hrow, .inr (hstores.version ▸ hversion)⟩) ?_
      simp only [nextLease, ha, he, bind, Except.bind]
    obtain ⟨attemptNo, ha⟩ := PositiveCounter.next_ok hattempt
    obtain ⟨leaseVersion, hv⟩ := PositiveCounter.next_ok hversion
    rcases @nextLease_of_counters runId r _ _ _ (.next lease ha hv) with
      ⟨hroom, found, hnext, hl⟩ | ⟨hlate, e, hnext⟩
    · refine .leases found ?_ hnext hl
      rintro (⟨other, hother, hfull⟩ | hlate)
      · obtain rfl := Option.some.inj (hrow.symm.trans hother)
        rw [← hstores.attempt, ← hstores.version] at hfull
        exact hfull.elim hattempt hversion
      · exact hroom hlate
    · exact .exhausted e (.inr hlate) hnext

theorem issued_of_age {claimId : LeaseClaimId} {now : DateTime} (h : validateClaimAge claimId now = .ok ()) :
    ∃ issuedAt replayExpiresAt, claimIdIssuedAt claimId = .ok issuedAt ∧
      issuedAt.add hours24 = .ok replayExpiresAt := by
  obtain ⟨issuedAt, hissued, hage⟩ := bind_eq_ok.mp h
  obtain ⟨latest, -, hage⟩ := bind_eq_ok.mp hage
  obtain ⟨_, -, hage⟩ := bind_eq_ok.mp hage
  obtain ⟨replayExpiresAt, hexpires, -⟩ := bind_eq_ok.mp hage
  exact ⟨issuedAt, replayExpiresAt, raising_eq_ok.mp hissued, raising_eq_ok.mp hexpires⟩

theorem exact_iff_of_issued {claimId : LeaseClaimId} {issuedAt : DateTime}
    (h : claimIdIssuedAt claimId = .ok issuedAt) : claimId.Exact ↔ issuedAt.micros = claimId.micros := by
  rw [claimIdIssuedAt, show claimId.value >>> 80 = claimId.milliseconds from rfl,
    DateTime.fromTimestampMillis] at h
  rw [LeaseClaimId.Exact, ← DateTime.ofMicros_eq_ok h]

theorem exact_of_checks {receipt : WorkerLeaseClaimReceiptRecord}
    (h : ((encodeClaimReceipt receipt).toClaimReceiptColumns.map ZonedDateTime.instant).checks
      receipt.claimId.value = true) : receipt.claimId.Exact := by
  obtain ⟨issuedAt, hissued, hrest⟩ := bind_eq_ok.mp receipt.valid
  obtain ⟨_, hmatches, -⟩ := bind_eq_ok.mp hrest
  have hsame : receipt.claimIssuedAt = issuedAt := of_decide_eq_true (require_eq_ok.mp hmatches)
  simp only [ClaimReceiptColumns.checks, Bool.and_eq_true] at h
  rw [exact_iff_of_issued hissued, ← hsame]
  exact beq_iff_eq.mp h.1.1.1.1.1.1.1.1.1.1.2

/-- What a claim leaves as it was: the runs, and the receipts of other claim ids. -/
structure Spares (db next : Database) (r : ClaimRequest) : Prop where
  runs : next.runs = db.runs
  receipts : ∀ key, key ≠ claimRowKey r.command.tenantId r.command.claimId →
    next.workerLeaseClaimReceipts.get? key = db.workerLeaseClaimReceipts.get? key

structure Receipts (r : ClaimRequest) (result : Option ClaimedResult)
    (receipt : WorkerLeaseClaimReceiptRecord) : Prop where
  tenant : receipt.tenantId = r.command.tenantId
  claim : receipt.claimId = r.command.claimId
  worker : receipt.workerId = r.command.workerId
  duration : receipt.duration = r.command.duration
  run : receipt.runId = result.map (·.runId)
  claimed : ∀ found, result = some found → claimedResult receipt = .ok found
  checks : ((encodeClaimReceipt receipt).toClaimReceiptColumns.map ZonedDateTime.instant).checks
    receipt.claimId.value = true ↔ r.command.claimId.Exact

/-- The values that `_no_work_receipt` and `_claimed_receipt` give a receipt. -/
def receiptFields (r : ClaimRequest) (result : Option ClaimedResult)
    (issuedAt replayExpiresAt createdAt : DateTime) : WorkerLeaseClaimReceiptFields where
  tenantId := r.command.tenantId
  claimId := r.command.claimId
  claimIssuedAt := issuedAt
  replayExpiresAt := replayExpiresAt
  workerId := r.command.workerId
  duration := r.command.duration
  intentFingerprint := r.command.intentFingerprint
  outcome := if result.isSome then .claimed else .noWork
  runId := result.map (·.runId)
  attemptNo := result.map (·.attemptNo)
  initialLeaseVersion := result.map (·.initialLeaseVersion)
  leaseAcquiredAt := result.map (·.leaseAcquiredAt)
  leaseExpiresAt := result.map (·.leaseExpiresAt)
  replayToken := result.map (·.replayToken)
  createdAt := createdAt

theorem postInit_of_parts {f : WorkerLeaseClaimReceiptFields}
    (hissued : claimIdIssuedAt f.claimId = .ok f.claimIssuedAt)
    (hexpires : f.claimIssuedAt.add hours24 = .ok f.replayExpiresAt)
    (hdigest : matchesDigestPattern f.intentFingerprint = true) (hresult : f.checkResult = .ok ()) :
    f.postInit = .ok () := by
  have hissuedAt : require (f.claimIssuedAt == f.claimIssuedAt)
      (PyError.valueError "claim_issued_at must match the UUIDv7 timestamp") = .ok () :=
    require_eq_ok.mpr (beq_dateTime f.claimIssuedAt)
  have hreplay : require (f.replayExpiresAt == f.replayExpiresAt)
      (PyError.valueError "replay_expires_at must be exactly 24 hours after issuance") = .ok () :=
    require_eq_ok.mpr (beq_dateTime f.replayExpiresAt)
  exact bind_eq_ok.mpr ⟨_, hissued, bind_eq_ok.mpr ⟨(), hissuedAt, bind_eq_ok.mpr ⟨_, hexpires,
    bind_eq_ok.mpr ⟨(), hreplay, bind_eq_ok.mpr ⟨(), require_eq_ok.mpr hdigest, hresult⟩⟩⟩⟩⟩

theorem claimReceipt_ok (hage : validateClaimAge r.command.claimId r.requestNow = .ok ())
    (result : Option ClaimedResult)
    (hresult : ∀ found, result = some found → found.leaseAcquiredAt < found.leaseExpiresAt)
    (createdAt : DateTime) :
    ∃ receipt, claimReceipt r.command result createdAt = .ok receipt ∧ Receipts r result receipt := by
  obtain ⟨issuedAt, replayExpiresAt, hissued, hexpires⟩ := issued_of_age hage
  have hdigest : matchesDigestPattern r.command.intentFingerprint = true :=
    matchesDigestPattern_hexdigest _
  have hreplay : (replayExpiresAt.micros == issuedAt.micros + hours24) = true :=
    beq_iff_eq.mpr (DateTime.add_eq_ok hexpires)
  have hfields : (receiptFields r result issuedAt replayExpiresAt createdAt).checkResult = .ok () := by
    cases result with
    | none => rfl
    | some found =>
      have hlater := hresult found rfl
      simp [WorkerLeaseClaimReceiptFields.checkResult, receiptFields, hlater.not_ge, bind, Except.bind]
  have hvalid : (receiptFields r result issuedAt replayExpiresAt createdAt).postInit = .ok () :=
    postInit_of_parts hissued hexpires hdigest hfields
  refine ⟨⟨receiptFields r result issuedAt replayExpiresAt createdAt, hvalid⟩, ?_, rfl, rfl, rfl, rfl,
    rfl, ?_, ?_⟩
  · exact bind_eq_ok.mpr ⟨_, hissued, bind_eq_ok.mpr ⟨_, hexpires, construct_of_ok _ hvalid⟩⟩
  · rintro found rfl
    rfl
  · refine ⟨exact_of_checks, fun hexact => ?_⟩
    have hinstant : ∀ d : DateTime, (utc d).instant = d := fun _ => rfl
    have hmicros : (issuedAt.micros == ((r.command.claimId.value >>> 80 : ℕ) : ℤ) * 1000) = true :=
      beq_iff_eq.mpr ((exact_iff_of_issued hissued).mp hexact)
    simp only [ClaimReceiptColumns.checks, ClaimReceiptColumns.map, encodeClaimReceipt, receiptFields,
      hinstant, hmicros, hreplay, hdigest, LeaseClaimId.new_value, LeaseDurationSeconds.new_value,
      r.command.workerId.safe, Except.isOk, Except.toBool]
    cases result with
    | none => rfl
    | some found =>
      have hlater := hresult found rfl
      simp [StoredClaimOutcome.value, hinstant, hlater, found.replayToken.length_eq]

theorem insertClaimReceipt_ok {result : Option ClaimedResult} {receipt : WorkerLeaseClaimReceiptRecord}
    (h : Receipts r result receipt) (hexact : r.command.claimId.Exact)
    (hfree : db.workerLeaseClaimReceipts.get? (claimRowKey r.command.tenantId r.command.claimId) = none)
    (hrun : ∀ found, result = some found → db.hasRun r.command.tenantId found.runId = true) :
    ∃ next, db.insertClaimReceipt receipt = .ok next ∧ db.Spares next r ∧
      next.workerLeases = db.workerLeases := by
  have hkey : receipt.runId.all (fun runId => db.hasRun receipt.tenantId runId) = true := by
    rw [h.run, h.tenant]
    cases result with
    | none => rfl
    | some found => exact hrun found rfl
  unfold insertClaimReceipt
  rw [h.tenant, h.claim] at *
  simp only [hfree]
  exact ⟨_, bind_eq_ok.mpr ⟨(), require_eq_ok.mpr (h.claim ▸ h.checks.mpr hexact),
    bind_eq_ok.mpr ⟨(), require_eq_ok.mpr hkey, rfl⟩⟩, ⟨rfl, fun _ hkey => Dict.get?_insert_ne _ _ hkey⟩, rfl⟩

theorem insertClaimReceipt_error {result : Option ClaimedResult} {receipt : WorkerLeaseClaimReceiptRecord}
    (h : Receipts r result receipt) (hexact : ¬ r.command.claimId.Exact)
    (hfree : db.workerLeaseClaimReceipts.get? (claimRowKey r.command.tenantId r.command.claimId) = none) :
    ∃ e, db.insertClaimReceipt receipt = .error (.raised e) := by
  have hchecks := Bool.eq_false_iff.mpr (mt h.checks.mp hexact)
  refine ⟨.integrity "ck_worker_lease_claim_receipts", ?_⟩
  unfold insertClaimReceipt
  simp only [h.tenant, h.claim, hfree]
  rw [← h.claim, hchecks]
  rfl

theorem claimIdTaken_of_unused (h : db.Unused r) {lease : WorkerLeaseRecord} (hl : Leases r runId lease) :
    db.claimIdTaken lease = false := by
  unfold claimIdTaken
  rw [List.any_eq_false]
  rintro ⟨key, row⟩ hmem htaken
  simp only [Bool.and_eq_true, beq_iff_eq, hl.tenant, hl.claim] at htaken
  obtain ⟨⟨htenant, hclaim⟩, -⟩ := htaken
  have hkey : key = rowKey r.command.tenantId (ofLex key).2 := by
    rw [← htenant]
    rfl
  have hget := (Dict.mem_items_iff _ _ _).mp hmem
  rw [hkey] at hget
  exact h.lease _ row hget hclaim

theorem checkedRow_encode (lease : WorkerLeaseRecord) :
    ∃ row, checkedRow ((encodeWorkerLease lease).toWorkerLeaseColumns.map ZonedDateTime.instant) = .ok row ∧
      row.claimId = lease.claimId.value ∧ row.releasedAt = lease.releasedAt ∧
      row.leaseExpiresAt = lease.leaseExpiresAt := by
  obtain ⟨hheartbeat, hexpires, hdigest, hreleased⟩ := lease.ordered
  have hchecks : ((encodeWorkerLease lease).toWorkerLeaseColumns.map ZonedDateTime.instant).checks =
      true := by
    have hinstant : ∀ d : DateTime, (utc d).instant = d := fun _ => rfl
    have hrelease : lease.releasedAt.all (fun releasedAt => decide (lease.acquiredAt ≤ releasedAt)) =
        true := by
      cases hcase : lease.releasedAt with
      | none => rfl
      | some releasedAt => exact decide_eq_true (hreleased releasedAt hcase)
    simp only [WorkerLeaseColumns.checks, WorkerLeaseColumns.map, encodeWorkerLease, hinstant,
      lease.workerId.safe, LeaseClaimId.new_value, PositiveCounter.new_value,
      LeaseDurationSeconds.new_value, hdigest, hheartbeat, hexpires, Except.isOk, Except.toBool,
      Option.map_map, Function.comp_def, Option.map_id', hrelease]
    rfl
  refine ⟨⟨_, hchecks⟩, by rw [checkedRow, dif_pos hchecks], rfl, ?_, rfl⟩
  cases hcase : lease.releasedAt <;>
    simp [WorkerLeaseColumns.map, encodeWorkerLease, hcase, utc]

theorem storeLease_eq {lease : WorkerLeaseRecord} (hl : Leases r runId lease)
    {current : Option WorkerLeaseRecord}
    (hcurrent : current.isSome = (db.workerLeases.get? (rowKey r.command.tenantId runId)).isSome)
    (hrun : db.hasRun r.command.tenantId runId = true) :
    ∃ row, db.storeLease lease current =
        (if db.claimIdTaken lease then .error .raceLost else .ok (db.putLease r.command.tenantId runId row)) ∧
      row.claimId = r.command.claimId.value ∧ row.releasedAt = none ∧
      row.leaseExpiresAt = lease.leaseExpiresAt := by
  obtain ⟨row, hrow, hclaim, hreleased, hexpires⟩ := checkedRow_encode lease
  refine ⟨row, ?_, hclaim.trans (congrArg LeaseClaimId.value hl.claim), hreleased.trans hl.released, hexpires⟩
  unfold storeLease
  rw [hl.tenant, hl.run]
  cases current with
  | none =>
    have habsent : (db.workerLeases.get? (rowKey r.command.tenantId runId)).isNone = true := by
      rw [← Option.not_isSome, ← hcurrent]
      rfl
    simp only [habsent, hrun, hrow, bind, Except.bind, require_true, Except.mapError]
    cases db.claimIdTaken lease <;> rfl
  | some current =>
    simp only [← hcurrent, Option.isSome_some, hrun, hrow, bind, Except.bind, require_true, Except.mapError]
    cases db.claimIdTaken lease <;> rfl

theorem grantFromReceipt_ok {receipt : WorkerLeaseClaimReceiptRecord} {found : ClaimedResult}
    (h : Receipts r (some found) receipt)
    (hexpires : found.leaseExpiresAt.micros = found.leaseAcquiredAt.micros + r.command.duration.micros) :
    ∃ grant, grantFromReceipt receipt true = .ok grant ∧ grant.proof = receiptProof receipt found ∧
      grant.leaseExpiresAt = found.leaseExpiresAt := by
  have hrange := r.command.duration.range
  have hmax : found.leaseExpiresAt.micros ≤ maxMicros := found.leaseExpiresAt.property.2
  unfold LeaseDurationSeconds.micros at hexpires
  have hthird : ¬ maxMicros < found.leaseAcquiredAt.micros + (r.command.duration.value * 1000000 / 3 : ℕ) := by
    omega
  obtain ⟨renewBy, hrenew, hmicros⟩ := DateTime.add_ok (Int.natCast_nonneg _) hthird
  have hlate : found.leaseAcquiredAt < found.leaseExpiresAt := by
    rw [DateTime.lt_iff]
    omega
  have hafter : found.leaseAcquiredAt < renewBy := by
    rw [DateTime.lt_iff]
    omega
  have hbefore : renewBy < found.leaseExpiresAt := by
    rw [DateTime.lt_iff]
    omega
  have hvalid : LeaseGrantFields.postInit ⟨receiptProof receipt found, found.initialLeaseVersion,
      receipt.duration, found.leaseAcquiredAt, found.leaseAcquiredAt, found.leaseExpiresAt, renewBy, true⟩ =
        .ok () := by
    simp [LeaseGrantFields.postInit, hlate.not_ge, hafter, hbefore, bind, Except.bind]
  refine ⟨⟨_, hvalid⟩, ?_, rfl, rfl⟩
  have hby : renewByAt found.leaseAcquiredAt receipt.duration = .ok renewBy := by
    rw [h.duration]
    exact hrenew
  exact bind_eq_ok.mpr ⟨found, h.claimed found rfl, bind_eq_ok.mpr ⟨renewBy, by rw [hby]; rfl,
    raising_eq_ok.mpr (construct_of_ok _ hvalid)⟩⟩

theorem claimLookup_of_unused (h : db.Unused r) : db.claimLookup r.command r.requestNow = .ok none := by
  refine bind_eq_ok.mpr ⟨(), h.age, bind_eq_ok.mpr ⟨none, ?_, rfl⟩⟩
  rw [loadReceipt, h.receipt]

theorem execute_of_unused (h : db.Unused r) :
    db.execute r = (db.claimFresh r.command r.token r.requestNow
        (r.unusedNow :: r.mutationNow :: r.clock)).map fun
      | .ok (next, outcome) => (next, .ok outcome)
      | .error .raceLost => (db, db.replayAfterRace r.command r.raceNow)
      | .error (.raised e) => (db, .error (claimFailure e)) := by
  rw [execute, claim, claimTransaction_def]
  exact congrArg (Option.map _) (by simp only [claimLookup_of_unused h])

theorem isClaimable_of_eligible (h : db.Unused r)
    (heligible : db.Eligible r.command.tenantId r.requestNow runId) {current : Option WorkerLeaseRecord}
    (hcurrent : ∀ lease, current = some lease → ∃ row, row.Stores r.command.tenantId runId lease ∧
      db.workerLeases.get? (rowKey r.command.tenantId runId) = some row) :
    db.isClaimable r.command.tenantId runId current r.mutationNow = true := by
  obtain ⟨run, hrun, hqueued⟩ := heligible.queued
  rw [isClaimable, Bool.and_eq_true]
  refine ⟨by simp [hrun, hqueued], ?_⟩
  cases current with
  | none => rfl
  | some lease =>
    obtain ⟨row, hstores, hrow⟩ := hcurrent lease rfl
    cases hreleased : lease.releasedAt with
    | some releasedAt => simp [hreleased]
    | none =>
      have hexpired := (heligible.free row hrow (hstores.released ▸ hreleased)).trans h.clock
      simp [hreleased, hstores.expires, hexpired]

def resultOf (lease : WorkerLeaseRecord) (token : LeaseToken) : ClaimedResult :=
  ⟨lease.runId, lease.attemptNo, lease.leaseVersion, lease.acquiredAt, lease.leaseExpiresAt, token⟩

theorem claiming_ok_bind {α β : Type} {x : Except PyError α} {a : α} (hx : x = .ok a)
    (f : α → Except ClaimRaised β) : (claiming (raising x) >>= f) = f a := by
  rw [hx]
  rfl

theorem claimWrite_nothing (db : Database) (hage : validateClaimAge r.command.claimId r.requestNow = .ok ()) :
    ∃ receipt, Receipts r none receipt ∧ db.claimWrite r.command r.token none r.mutationNow =
      (do
        let next ← db.insertClaimReceipt receipt
        return (next, ⟨none, false⟩)) := by
  obtain ⟨receipt, hreceipt, hreceipts⟩ := claimReceipt_ok hage none (by simp) r.mutationNow
  exact ⟨receipt, hreceipts, claiming_ok_bind hreceipt _⟩

theorem claimWrite_leases (db : Database) (hage : validateClaimAge r.command.claimId r.requestNow = .ok ())
    {current : Option WorkerLeaseRecord} {lease : WorkerLeaseRecord}
    (hnext : nextLease r.command r.token runId current r.mutationNow = .ok lease)
    (hl : Leases r runId lease) :
    ∃ receipt, Receipts r (some (resultOf lease r.token)) receipt ∧
      db.claimWrite r.command r.token (some (runId, current)) r.mutationNow =
        (do
          let stored ← db.storeLease lease current
          let next ← stored.insertClaimReceipt receipt
          let grant ← claiming (grantFromReceipt receipt true)
          return (next, ⟨some grant, false⟩)) := by
  have hlate : lease.acquiredAt < lease.leaseExpiresAt := lt_of_eq_of_lt hl.acquired hl.late
  obtain ⟨receipt, hreceipt, hreceipts⟩ := claimReceipt_ok hage (some (resultOf lease r.token))
    (fun _ hfound => Option.some.inj hfound ▸ hlate) r.mutationNow
  refine ⟨receipt, hreceipts, ?_⟩
  rw [claimWrite, claiming_ok_bind hnext]
  exact claiming_ok_bind hreceipt _

theorem claimWrite_none (h : db.Fresh r) : ∃ next, db.Spares next r ∧
    next.workerLeases = db.workerLeases ∧
      db.claimWrite r.command r.token none r.mutationNow = .ok (next, ⟨none, false⟩) := by
  obtain ⟨receipt, hreceipts, hwrite⟩ := claimWrite_nothing db h.age
  obtain ⟨next, hinsert, hspares, hleases⟩ := insertClaimReceipt_ok hreceipts h.exact h.receipt (by simp)
  exact ⟨next, hspares, hleases, by rw [hwrite, hinsert]; rfl⟩

/-- The grant of a run: its lease is stored, with the values of the claim. -/
structure Granted (db next : Database) (r : ClaimRequest) (runId : RunId) (row : WorkerLeaseRow)
    (grant : LeaseGrant) : Prop where
  tenant : grant.proof.tenantId = r.command.tenantId
  run : grant.proof.runId = runId
  worker : grant.proof.workerId = r.command.workerId
  claim : grant.proof.claimId = r.command.claimId
  spares : db.Spares next r
  leases : next.workerLeases = db.workerLeases.insert (rowKey r.command.tenantId runId) row
  claimId : row.claimId = r.command.claimId.value
  released : row.releasedAt = none
  expires : row.leaseExpiresAt = grant.leaseExpiresAt
  expiry : grant.leaseExpiresAt.micros = r.mutationNow.micros + r.command.duration.micros

theorem Granted.late {row : WorkerLeaseRow} {grant : LeaseGrant} (h : db.Granted next r runId row grant) :
    r.mutationNow < grant.leaseExpiresAt := by
  have hpositive := r.command.duration.micros_pos
  rw [DateTime.lt_iff, h.expiry]
  omega

theorem Granted.kept {row : WorkerLeaseRow} {grant : LeaseGrant} (h : db.Granted next r runId row grant)
    {other : RunId} (hne : other ≠ runId) : next.workerLeases.get? (rowKey r.command.tenantId other) =
      db.workerLeases.get? (rowKey r.command.tenantId other) := by
  rw [h.leases, Dict.get?_insert_ne]
  simp [hne]

theorem hasRun_of_eligible (h : db.Eligible tenantId now runId) : db.hasRun tenantId runId = true := by
  obtain ⟨run, hrun, -⟩ := h.queued
  rw [hasRun, hrun]
  rfl

theorem claimWrite_some (h : db.Fresh r) (heligible : db.Eligible r.command.tenantId r.requestNow runId)
    {current : Option WorkerLeaseRecord}
    (hcurrent : current.isSome = (db.workerLeases.get? (rowKey r.command.tenantId runId)).isSome)
    {lease : WorkerLeaseRecord}
    (hnext : nextLease r.command r.token runId current r.mutationNow = .ok lease)
    (hl : Leases r runId lease) :
    ∃ next row grant, db.claimWrite r.command r.token (some (runId, current)) r.mutationNow =
        .ok (next, ⟨some grant, false⟩) ∧ db.Granted next r runId row grant := by
  have hhas := hasRun_of_eligible heligible
  obtain ⟨row, hstore, hclaim, hreleased, hexpires⟩ := storeLease_eq hl hcurrent hhas
  rw [claimIdTaken_of_unused h.toUnused hl] at hstore
  obtain ⟨receipt, hreceipts, hwrite⟩ := claimWrite_leases db h.age hnext hl
  obtain ⟨next, hinsert, hspares, hleases⟩ := @insertClaimReceipt_ok
    (db.putLease r.command.tenantId runId row) r _ _ hreceipts h.exact h.receipt
    (fun _ hfound => Option.some.inj hfound ▸ (congrArg (db.hasRun r.command.tenantId) hl.run).trans hhas)
  obtain ⟨grant, hgrant, hproof, hends⟩ := grantFromReceipt_ok hreceipts
    (show lease.leaseExpiresAt.micros = lease.acquiredAt.micros + _ by rw [hl.expires, hl.acquired])
  refine ⟨next, row, grant, ?_, ?_⟩
  · rw [hwrite]
    exact bind_eq_ok.mpr ⟨_, hstore, bind_eq_ok.mpr ⟨next, hinsert, bind_eq_ok.mpr ⟨grant, by
      rw [hgrant]; rfl, rfl⟩⟩⟩
  · constructor
    case tenant => rw [hproof]; exact hreceipts.tenant
    case run => rw [hproof]; exact hl.run
    case worker => rw [hproof]; exact hreceipts.worker
    case claim => rw [hproof]; exact hreceipts.claim
    case spares => exact ⟨hspares.runs, hspares.receipts⟩
    case leases => exact hleases
    case claimId => exact hclaim
    case released => exact hreleased
    case expires => exact hexpires.trans hends.symm
    case expiry => rw [hends]; exact hl.expires

theorem claimWrite_of_exhausted {current : Option WorkerLeaseRecord} {e : PyError}
    (hnext : nextLease r.command r.token runId current r.mutationNow = .error e) :
    db.claimWrite r.command r.token (some (runId, current)) r.mutationNow =
      .error (.raised (.failure (.python e))) := by
  simp only [claimWrite, hnext]
  rfl

/-- What a fresh claim can do, by the head of the queue it selects from. -/
inductive Executes (db : Database) (r : ClaimRequest) : Database → Except Failure LeaseClaimOutcome → Prop
  | noWork (next : Database) (hqueue : db.queue r.command.tenantId r.requestNow = [])
    (hspares : db.Spares next r) (hleases : next.workerLeases = db.workerLeases) :
    Executes db r next (.ok ⟨none, false⟩)
  | granted (next : Database) (runId : RunId) (rest : List RunId) (row : WorkerLeaseRow)
    (grant : LeaseGrant) (hqueue : db.queue r.command.tenantId r.requestNow = runId :: rest)
    (hroom : ¬ db.Exhausted r.command r.mutationNow runId) (hgranted : db.Granted next r runId row grant) :
    Executes db r next (.ok ⟨some grant, false⟩)
  | raised (runId : RunId) (rest : List RunId) (e : Failure)
    (hqueue : db.queue r.command.tenantId r.requestNow = runId :: rest)
    (hfull : db.Exhausted r.command r.mutationNow runId) : Executes db r db (.error e)

/-- The selection of an unused claim: nothing from an empty queue, and its head otherwise. -/
inductive Selects (db : Database) (r : ClaimRequest) : Option (RunId × Option WorkerLeaseRecord) → Prop
  | nothing (hqueue : db.queue r.command.tenantId r.requestNow = []) : Selects db r none
  | head (runId : RunId) (rest : List RunId) (current : Option WorkerLeaseRecord)
    (hqueue : db.queue r.command.tenantId r.requestNow = runId :: rest)
    (heligible : db.Eligible r.command.tenantId r.requestNow runId)
    (hcurrent : current.isSome = (db.workerLeases.get? (rowKey r.command.tenantId runId)).isSome)
    (hnext : db.Continues r runId current) : Selects db r (some (runId, current))

theorem claimLoop_selects_first (h : db.Unused r) : ∃ selected, db.Selects r selected ∧
    db.claimLoop r.command.tenantId (db.selectEligibleRun r.command.tenantId r.requestNow)
      (r.mutationNow :: r.clock) = some (.ok (selected, r.mutationNow)) := by
  rw [selectEligibleRun_eq]
  cases hqueue : db.queue r.command.tenantId r.requestNow with
  | nil => exact ⟨none, .nothing hqueue, rfl⟩
  | cons runId rest =>
    have heligible : db.Eligible r.command.tenantId r.requestNow runId :=
      mem_queue.mp (hqueue ▸ List.mem_cons_self)
    obtain ⟨current, hload, hsome, hrow, hcases⟩ := nextLease_continues db r runId
    have hclaimable := isClaimable_of_eligible h heligible hrow
    refine ⟨some (runId, current), .head runId rest current hqueue heligible hsome hcases, ?_⟩
    simp only [List.head?_cons, claimLoop, hload, hclaimable, if_true]

theorem execute_selects (h : db.Unused r) : ∃ selected, db.Selects r selected ∧ db.execute r =
    (some (db.claimWrite r.command r.token selected r.mutationNow)).map fun
      | .ok (next, outcome) => (next, .ok outcome)
      | .error .raceLost => (db, db.replayAfterRace r.command r.raceNow)
      | .error (.raised e) => (db, .error (claimFailure e)) := by
  obtain ⟨selected, hselects, hloop⟩ := claimLoop_selects_first h
  refine ⟨selected, hselects, ?_⟩
  rw [execute_of_unused h, claimFresh, List.tail_cons, hloop]

theorem claimWrite_of_inexact (h : db.Unused r) (hexact : ¬ r.command.claimId.Exact)
    {selected : Option (RunId × Option WorkerLeaseRecord)} (hselects : db.Selects r selected) :
    ∃ e, db.claimWrite r.command r.token selected r.mutationNow = .error (.raised e) := by
  cases hselects with
  | nothing =>
    obtain ⟨receipt, hreceipts, hwrite⟩ := claimWrite_nothing db h.age
    obtain ⟨e, hinsert⟩ := insertClaimReceipt_error hreceipts hexact h.receipt
    exact ⟨e, by rw [hwrite, hinsert]; rfl⟩
  | head runId rest current hqueue heligible hcurrent hnext =>
    cases hnext with
    | exhausted e hfull hnext => exact ⟨_, claimWrite_of_exhausted hnext⟩
    | leases lease hroom hnext hl =>
      obtain ⟨row, hstore, -⟩ := storeLease_eq hl hcurrent (hasRun_of_eligible heligible)
      rw [claimIdTaken_of_unused h hl] at hstore
      obtain ⟨receipt, hreceipts, hwrite⟩ := claimWrite_leases db h.age hnext hl
      obtain ⟨e, hinsert⟩ := @insertClaimReceipt_error (db.putLease r.command.tenantId runId row) _ _ _
        hreceipts hexact h.receipt
      rw [hwrite]
      exact ⟨e, bind_eq_error.mpr (.inr ⟨_, hstore, bind_eq_error.mpr (.inl hinsert)⟩)⟩

theorem raises_of_inexact (h : db.Unused r) (hexact : ¬ r.command.claimId.Exact) :
    ∃ e, db.execute r = some (db, .error e) := by
  obtain ⟨selected, hselects, hexecute⟩ := execute_selects h
  obtain ⟨e, hwrite⟩ := claimWrite_of_inexact h hexact hselects
  exact ⟨claimFailure e, by rw [hexecute, hwrite]; rfl⟩

theorem execute_executes (h : db.Fresh r) :
    ∃ next result, db.execute r = some (next, result) ∧ db.Executes r next result := by
  obtain ⟨selected, hselects, hexecute⟩ := execute_selects h.toUnused
  rw [hexecute]
  cases hselects with
  | nothing hqueue =>
    obtain ⟨next, hspares, hleases, hwrite⟩ := claimWrite_none h
    exact ⟨next, _, by rw [hwrite]; rfl, .noWork next hqueue hspares hleases⟩
  | head runId rest current hqueue heligible hcurrent hnext =>
    cases hnext with
    | leases lease hroom hnext hl =>
      obtain ⟨next, row, grant, hwrite, hgranted⟩ := claimWrite_some h heligible hcurrent hnext hl
      exact ⟨next, _, by rw [hwrite]; rfl, .granted next runId rest row grant hqueue hroom hgranted⟩
    | exhausted e hfull hnext =>
      exact ⟨db, _, by rw [claimWrite_of_exhausted hnext]; rfl, .raised runId rest _ hqueue hfull⟩

/-- The least eligible run in the order of its update and its id. -/
structure First (db : Database) (tenantId : TenantId) (now : DateTime) (runId : RunId) : Prop where
  eligible : db.Eligible tenantId now runId
  least : ∀ other, db.Eligible tenantId now other → ∀ run otherRun,
    db.runs.get? (rowKey tenantId runId) = some run →
    db.runs.get? (rowKey tenantId other) = some otherRun →
      queueKey (rowKey tenantId runId, run) ≤ queueKey (rowKey tenantId other, otherRun)

theorem first_of_queue {rest : List RunId} (hqueue : db.queue tenantId now = runId :: rest) :
    db.First tenantId now runId := by
  have hsorted : (db.eligibleRows tenantId now).Pairwise _ := eligibleRows_sorted
  have heligible : db.Eligible tenantId now runId := mem_queue.mp (hqueue ▸ List.mem_cons_self)
  refine ⟨heligible, fun other hother run otherRun hrun hotherRun => ?_⟩
  rw [queue] at hqueue
  obtain ⟨p, tail, hrows, hp, -⟩ := List.map_eq_cons_iff.mp hqueue
  have row : ∀ {id : RunId} {found : RunRow}, db.Eligible tenantId now id →
      db.runs.get? (rowKey tenantId id) = some found → (rowKey tenantId id, found) ∈ p :: tail :=
    fun hid hfound => hrows ▸ mem_eligibleRows.mpr ⟨_, rfl, hfound, (isEligible_iff hfound).mpr hid⟩
  have hhead : p = (rowKey tenantId runId, run) := by
    have hnodup : ((p :: tail).map fun p => (ofLex p.1).2).Nodup := by
      have hqueueNodup : (db.queue tenantId now).Nodup := queue_nodup
      rwa [queue, hrows] at hqueueNodup
    have hmem := row heligible hrun
    exact List.inj_on_of_nodup_map hnodup List.mem_cons_self hmem hp
  rw [hrows] at hsorted
  rcases List.mem_cons.mp (row hother hotherRun) with heq | hmem
  · rw [← hhead, heq]
  · rw [← hhead]
    exact (List.pairwise_cons.mp hsorted).1 _ hmem

/-- A claim grants the least eligible run, unless its lease is exhausted, and reports no
    work exactly when no run is eligible. It never changes a run. -/
structure Serves (db : Database) (r : ClaimRequest) : Prop where
  grants : ∀ runId, db.First r.command.tenantId r.requestNow runId →
    ¬ db.Exhausted r.command r.mutationNow runId →
    ∃ next grant, db.execute r = some (next, .ok ⟨some grant, false⟩) ∧
      grant.proof.tenantId = r.command.tenantId ∧ grant.proof.runId = runId ∧
      grant.proof.workerId = r.command.workerId ∧ grant.proof.claimId = r.command.claimId
  granted : ∀ next grant replayed, db.execute r = some (next, .ok ⟨some grant, replayed⟩) →
    replayed = false ∧ db.First r.command.tenantId r.requestNow grant.proof.runId
  raises : ∀ runId, db.First r.command.tenantId r.requestNow runId →
    db.Exhausted r.command r.mutationNow runId →
    ∃ e, db.execute r = some (db, .error e)
  noWork : (∃ next replayed, db.execute r = some (next, .ok ⟨none, replayed⟩)) ↔
    ∀ runId, ¬ db.Eligible r.command.tenantId r.requestNow runId
  runs : ∀ next result, db.execute r = some (next, result) → next.runs = db.runs

theorem First.unique {runId other : RunId} (h : db.First tenantId now runId)
    (h' : db.First tenantId now other) : runId = other := by
  obtain ⟨run, hrun, -⟩ := h.eligible.queued
  obtain ⟨otherRun, hother, -⟩ := h'.eligible.queued
  have heq := le_antisymm (h.least other h'.eligible run otherRun hrun hother)
    (h'.least runId h.eligible otherRun run hother hrun)
  exact congrArg (fun k => (ofLex k).2) heq

theorem execute_first (h : db.Fresh r) (hfirst : db.First r.command.tenantId r.requestNow runId)
    (hroom : ¬ db.Exhausted r.command r.mutationNow runId) : ∃ next row grant,
      db.execute r = some (next, .ok ⟨some grant, false⟩) ∧ db.Granted next r runId row grant := by
  obtain ⟨next, result, hexecute, hcase⟩ := execute_executes h
  cases hcase with
  | noWork _ hqueue =>
    have hmem := mem_queue.mpr hfirst.eligible
    rw [hqueue] at hmem
    cases hmem
  | granted _ other _ row grant hqueue _ hgranted =>
    cases (first_of_queue hqueue).unique hfirst
    exact ⟨next, row, grant, hexecute, hgranted⟩
  | raised other _ _ hqueue hfull =>
    cases (first_of_queue hqueue).unique hfirst
    exact absurd hfull hroom

theorem execute_nothing (h : db.Fresh r)
    (hnone : ∀ runId, ¬ db.Eligible r.command.tenantId r.requestNow runId) :
    ∃ next, db.execute r = some (next, .ok ⟨none, false⟩) := by
  obtain ⟨next, result, hexecute, hcase⟩ := execute_executes h
  cases hcase with
  | noWork => exact ⟨next, hexecute⟩
  | granted _ _ _ _ _ hqueue => exact absurd (first_of_queue hqueue).eligible (hnone _)
  | raised _ _ _ hqueue => exact absurd (first_of_queue hqueue).eligible (hnone _)

theorem Granted.eligible_iff {row : WorkerLeaseRow} {grant : LeaseGrant}
    (h : db.Granted next r runId row grant) (hnow : now < grant.leaseExpiresAt) {other : RunId} :
    next.Eligible r.command.tenantId now other ↔ db.Eligible r.command.tenantId now other ∧ other ≠ runId := by
  by_cases hne : other = runId
  · subst hne
    refine iff_of_false (fun heligible => ?_) fun hother => hother.2 rfl
    have hrow : next.workerLeases.get? (rowKey r.command.tenantId other) = some row := by
      rw [h.leases, Dict.get?_insert_self]
    exact absurd (h.expires ▸ heligible.free row hrow h.released) (not_le.mpr hnow)
  · rw [eligible_congr h.spares.runs (h.kept hne)]
    exact ⟨fun heligible => ⟨heligible, hne⟩, fun hother => hother.1⟩

theorem Granted.unused {row : WorkerLeaseRow} {grant : LeaseGrant} {other : ClaimRequest}
    (h : db.Granted next r runId row grant) (hunused : db.Unused other)
    (hne : other.command.claimId ≠ r.command.claimId) : next.Unused other := by
  refine ⟨hunused.age, ?_, fun otherId found hfound => ?_, hunused.clock⟩
  · rw [h.spares.receipts _ (mt claimRowKey_inj.mp fun hkey => hne hkey.2)]
    exact hunused.receipt
  · rw [h.leases, Dict.get?_insert] at hfound
    split_ifs at hfound with hkey
    · rw [← Option.some.inj hfound, h.claimId]
      exact fun hvalue => hne (LeaseClaimId.value_injective hvalue).symm
    · exact hunused.lease otherId found hfound

theorem serves_of_fresh (h : db.Fresh r) : db.Serves r := by
  obtain ⟨next, result, hexecute, hcase⟩ := execute_executes h
  have none_eligible : db.queue r.command.tenantId r.requestNow = [] →
      ∀ runId, ¬ db.Eligible r.command.tenantId r.requestNow runId := by
    intro hqueue runId heligible
    have hmem := mem_queue.mpr heligible
    rw [hqueue] at hmem
    cases hmem
  have some_eligible : ∀ {runId rest}, db.queue r.command.tenantId r.requestNow = runId :: rest →
      ¬ ∀ other, ¬ db.Eligible r.command.tenantId r.requestNow other :=
    fun hqueue hnone => hnone _ (first_of_queue hqueue).eligible
  cases hcase with
  | noWork next hqueue hspares =>
    have hnone := none_eligible hqueue
    constructor
    case grants => exact fun runId hfirst => absurd hfirst.eligible (hnone runId)
    case granted =>
      intro _ _ _ hgrant
      rw [hexecute] at hgrant
      cases hgrant
    case raises => exact fun runId hfirst => absurd hfirst.eligible (hnone runId)
    case noWork => exact iff_of_true ⟨next, false, hexecute⟩ hnone
    case runs =>
      intro _ _ hother
      cases hexecute.symm.trans hother
      exact hspares.runs
  | granted next runId rest row grant hqueue hroom hgranted =>
    have hfirst := first_of_queue hqueue
    constructor
    case grants =>
      intro other hother _
      exact ⟨next, grant, hexecute, hgranted.tenant, hgranted.run.trans (hfirst.unique hother), hgranted.worker,
        hgranted.claim⟩
    case granted =>
      intro _ _ _ hgrant
      cases hexecute.symm.trans hgrant
      exact ⟨rfl, hgranted.run ▸ hfirst⟩
    case raises => exact fun other hother hfull => absurd (hfirst.unique hother ▸ hfull) hroom
    case noWork =>
      refine iff_of_false ?_ (some_eligible hqueue)
      rintro ⟨_, _, hnone⟩
      cases hexecute.symm.trans hnone
    case runs =>
      intro _ _ hother
      cases hexecute.symm.trans hother
      exact hgranted.spares.runs
  | raised runId rest e hqueue hfull =>
    have hfirst := first_of_queue hqueue
    constructor
    case grants => exact fun other hother hroom => absurd (hfirst.unique hother ▸ hfull) hroom
    case granted =>
      intro _ _ _ hgrant
      cases hexecute.symm.trans hgrant
    case raises => exact fun _ _ _ => ⟨e, hexecute⟩
    case noWork =>
      refine iff_of_false ?_ (some_eligible hqueue)
      rintro ⟨_, _, hnone⟩
      cases hexecute.symm.trans hnone
    case runs =>
      intro _ _ hother
      cases hexecute.symm.trans hother
      rfl

abbrev ClaimHistory := List (ClaimRequest × Except Failure LeaseClaimOutcome)

/-- Fresh claims one after the other, over a clock that does not go back. -/
inductive Served : Database → DateTime → ClaimHistory → Database → Prop
  | nil (db : Database) (now : DateTime) : Served db now [] db
  | cons (db next last : Database) (now : DateTime) (r : ClaimRequest)
    (result : Except Failure LeaseClaimOutcome) (history : ClaimHistory) (hfresh : db.Fresh r)
    (hnow : now ≤ r.requestNow) (hexecute : db.execute r = some (next, result))
    (hrest : Served next r.mutationNow history last) : Served db now ((r, result) :: history) last

def ofTenant (tenantId : TenantId) (history : ClaimHistory) : ClaimHistory :=
  history.filter fun served => served.1.command.tenantId == tenantId

def grantedRun (result : Except Failure LeaseClaimOutcome) : Option RunId :=
  match result with
  | .ok outcome => outcome.grant.map (·.proof.runId)
  | .error _ => none

/-- While the claims of a tenant are served, no granted lease ends, no other run becomes
    eligible, and no lease is exhausted. -/
structure Quiet (db : Database) (tenantId : TenantId) (now : DateTime) (history : ClaimHistory) : Prop where
  held : (ofTenant tenantId history).Pairwise fun earlier later =>
    ∀ grant, earlier.2 = .ok ⟨some grant, false⟩ → later.1.requestNow < grant.leaseExpiresAt
  others : ∀ served ∈ ofTenant tenantId history, ∀ runId,
    db.Eligible tenantId served.1.requestNow runId → db.Eligible tenantId now runId
  room : ∀ served ∈ ofTenant tenantId history, ∀ runId, db.Eligible tenantId now runId →
    ¬ db.Exhausted served.1.command served.1.mutationNow runId

theorem served_start {history : ClaimHistory} {last : Database} (h : Served db now history last) :
    ∀ served ∈ history, now ≤ served.1.requestNow := by
  induction h with
  | nil => simp
  | cons db next last now r result history hfresh hnow hexecute hrest ih =>
    intro served hserved
    rcases List.mem_cons.mp hserved with rfl | hserved
    · exact hnow
    · exact hnow.trans (hfresh.clock.trans (ih served hserved))

theorem Quiet.tail {served : ClaimRequest × Except Failure LeaseClaimOutcome} {history : ClaimHistory}
    (h : db.Quiet tenantId now (served :: history)) : db.Quiet tenantId now history := by
  have hsub : (ofTenant tenantId history).Sublist (ofTenant tenantId (served :: history)) :=
    (List.sublist_cons_self served history).filter _
  exact ⟨h.held.sublist hsub, fun other hother => h.others other (hsub.subset hother),
    fun other hother => h.room other (hsub.subset hother)⟩

/-- The rest of a quiet history is quiet after a claim that has only changed the leases of
    runs that are not eligible any more. -/
theorem Quiet.step {history : ClaimHistory} (h : db.Quiet tenantId now history) (out : RunId → Prop)
    (hruns : next.runs = db.runs)
    (hkept : ∀ other, ¬ out other → next.workerLeases.get? (rowKey tenantId other) =
      db.workerLeases.get? (rowKey tenantId other))
    (hnow : ∀ other, out other → ¬ next.Eligible tenantId now other)
    (hlater : ∀ served ∈ ofTenant tenantId history, ∀ other, out other →
      ¬ next.Eligible tenantId served.1.requestNow other) : next.Quiet tenantId now history := by
  refine ⟨h.held, fun served hserved runId heligible => ?_, fun served hserved runId heligible hfull => ?_⟩
  · have hin : ¬ out runId := fun hout => hlater served hserved runId hout heligible
    rw [eligible_congr hruns (hkept runId hin)] at heligible ⊢
    exact h.others served hserved runId heligible
  · have hin : ¬ out runId := fun hout => hnow runId hout heligible
    have htenant : served.1.command.tenantId = tenantId := by
      simpa using (List.mem_filter.mp hserved).2
    rw [eligible_congr hruns (hkept runId hin)] at heligible
    rw [Exhausted, htenant, hkept runId hin, ← htenant] at hfull
    exact h.room served hserved runId heligible hfull

/-- The claims of a tenant take its queue from the head, and report no work after it. -/
def Drains (db : Database) (tenantId : TenantId) (now : DateTime) (history : ClaimHistory) : Prop :=
  (∀ served ∈ ofTenant tenantId history, ∃ outcome, served.2 = .ok outcome) ∧
    (ofTenant tenantId history).map (fun served => grantedRun served.2) =
      ((db.queue tenantId now).map some).takeD (ofTenant tenantId history).length none

theorem drains_cons {history : ClaimHistory} {outcome : LeaseClaimOutcome}
    (hhead : outcome.grant.map (·.proof.runId) = (db.queue r.command.tenantId now).head?)
    (htail : next.queue r.command.tenantId now = (db.queue r.command.tenantId now).tail)
    (h : next.Drains r.command.tenantId now history) :
    db.Drains r.command.tenantId now ((r, .ok outcome) :: history) := by
  have hcons : ofTenant r.command.tenantId ((r, .ok outcome) :: history) =
      (r, .ok outcome) :: ofTenant r.command.tenantId history := by simp [ofTenant]
  refine ⟨fun served hserved => ?_, ?_⟩
  · rw [hcons] at hserved
    rcases List.mem_cons.mp hserved with rfl | hserved
    · exact ⟨outcome, rfl⟩
    · exact h.1 served hserved
  · rw [hcons, List.map_cons, h.2, htail]
    change outcome.grant.map (·.proof.runId) :: _ = _
    rw [hhead]
    cases db.queue r.command.tenantId now <;> rfl

theorem drains {history : ClaimHistory} {last : Database} {start : DateTime}
    (h : Served db start history last) (hstart : now ≤ start)
    (hquiet : db.Quiet tenantId now history) : db.Drains tenantId now history := by
  induction h with
  | nil => exact ⟨by simp [ofTenant], rfl⟩
  | cons db next last start r result history hfresh hnow hexecute hrest ih =>
    obtain ⟨_, _, hsame, hcase⟩ := execute_executes hfresh
    cases hexecute.symm.trans hsame
    have hafter : now ≤ r.mutationNow := hstart.trans (hnow.trans hfresh.clock)
    have unchanged : next.runs = db.runs → (∀ runId, next.workerLeases.get? (rowKey tenantId runId) =
        db.workerLeases.get? (rowKey tenantId runId)) →
          next.Drains tenantId now history ∧ next.queue tenantId now = db.queue tenantId now := by
      intro hruns hkept
      refine ⟨ih hafter (hquiet.tail.step (fun _ => False) hruns (fun other _ => hkept other)
        (fun _ hout => hout.elim) fun _ _ _ hout => hout.elim), ?_⟩
      exact queue_congr hruns fun runId => eligible_congr hruns (hkept runId)
    by_cases htenant : r.command.tenantId = tenantId
    · subst htenant
      have hcons : ofTenant r.command.tenantId ((r, result) :: history) =
          (r, result) :: ofTenant r.command.tenantId history := by simp [ofTenant]
      have hmem : (r, result) ∈ ofTenant r.command.tenantId ((r, result) :: history) :=
        hcons ▸ List.mem_cons_self
      have hqueue : db.queue r.command.tenantId r.requestNow = db.queue r.command.tenantId now :=
        queue_congr rfl fun runId => ⟨hquiet.others _ hmem runId,
          fun heligible => heligible.mono (hstart.trans hnow)⟩
      cases hcase with
      | noWork _ hempty hspares hleases =>
        rw [hqueue] at hempty
        obtain ⟨hdrained, hstill⟩ := unchanged hspares.runs fun _ => by rw [hleases]
        exact drains_cons (by rw [hempty]; rfl) (by rw [hstill, hempty]; rfl) hdrained
      | granted _ runId rest row grant hhas _ hgranted =>
        rw [hqueue] at hhas
        have hleased : ∀ t, t < grant.leaseExpiresAt → ∀ other, other = runId →
            ¬ next.Eligible r.command.tenantId t other :=
          fun t ht other hother heligible => ((hgranted.eligible_iff ht).mp heligible).2 hother
        have hbefore := hafter.trans_lt hgranted.late
        have hheld := hquiet.held
        rw [hcons] at hheld
        have hdrained := ih hafter (hquiet.tail.step (· = runId) hgranted.spares.runs
          (fun _ => hgranted.kept) (hleased now hbefore)
          fun served hserved => hleased _ ((List.pairwise_cons.mp hheld).1 served hserved grant rfl))
        refine drains_cons (by rw [hhas, ← hgranted.run]; rfl) ?_ hdrained
        rw [hhas]
        exact queue_tail hgranted.spares.runs hhas fun _ => hgranted.eligible_iff hbefore
      | raised runId rest e hhas hfull =>
        rw [hqueue] at hhas
        exact absurd hfull (hquiet.room _ hmem runId (mem_queue.mp (hhas ▸ List.mem_cons_self)))
    · have hcons : ofTenant tenantId ((r, result) :: history) = ofTenant tenantId history := by
        simp [ofTenant, htenant]
      have hframe : next.runs = db.runs ∧ ∀ runId, next.workerLeases.get? (rowKey tenantId runId) =
          db.workerLeases.get? (rowKey tenantId runId) := by
        cases hcase with
        | noWork _ _ hspares hleases => exact ⟨hspares.runs, fun _ => by rw [hleases]⟩
        | raised => exact ⟨rfl, fun _ => rfl⟩
        | granted _ runId _ row _ _ _ hgranted =>
          refine ⟨hgranted.spares.runs, fun other => ?_⟩
          rw [hgranted.leases, Dict.get?_insert_ne]
          simp [Ne.symm htenant]
      obtain ⟨hdrained, hstill⟩ := unchanged hframe.1 hframe.2
      unfold Drains at hdrained ⊢
      rw [hcons, ← hstill]
      exact hdrained

theorem served_runs {history : ClaimHistory} {last : Database} (h : Served db now history last) :
    last.runs = db.runs := by
  induction h with
  | nil => rfl
  | cons db next last now r result history hfresh hnow hexecute hrest ih =>
    exact ih.trans ((serves_of_fresh hfresh).runs next result hexecute)

/-- A claim with an unused id serves the least eligible run of its tenant when a double shows the
    time of the id, and raises otherwise. While granted leases last, fresh claims take the eligible
    runs one after the other, each once, and then find no work. No claim changes a run. -/
theorem claims_drain_queue :
    (∀ (db : Database) r, db.Unused r → (r.command.claimId.Exact → db.Serves r) ∧
      (¬ r.command.claimId.Exact → ∃ e, db.execute r = some (db, .error e))) ∧
    ∀ (db : Database) tenantId now history last, Served db now history last →
      db.Quiet tenantId now history →
        (db.queue tenantId now).Nodup ∧
        (∀ runId, runId ∈ db.queue tenantId now ↔ db.Eligible tenantId now runId) ∧
        db.Drains tenantId now history ∧ last.runs = db.runs :=
  ⟨fun _ _ h => ⟨fun hexact => serves_of_fresh ⟨h, hexact⟩, raises_of_inexact h⟩, fun _ _ _ _ _ h hquiet =>
    ⟨queue_nodup, fun _ => mem_queue, drains h le_rfl hquiet, served_runs h⟩⟩

end Database

namespace Sample

def nextClaimId : LeaseClaimId :=
  ⟨2000 * 2 ^ 80 + 7 * 2 ^ 76 + 2 * 2 ^ 62, by decide, by decide, by decide⟩

/-- A claim for 30 seconds in a transaction that takes no time. -/
def claimAt (claimId : LeaseClaimId) (now : DateTime) : ClaimRequest :=
  ⟨⟨tenant, worker, claimId, ⟨30, longest_range⟩⟩, token, now, now, now, [], now⟩

def claimRequest : ClaimRequest := claimAt nextClaimId opening

/-- A released lease with the last attempt number. -/
def lastAttempt : WorkerLeaseRow where
  toWorkerLeaseColumns := { leaseColumns with attemptNo := maxSignedBigint, releasedAt := some opening }
  valid := by
    have hdigest : leaseColumns.tokenDigest.length = 32 := Sha256.digest_length _
    simp only [WorkerLeaseColumns.checks, hdigest]
    decide

def exhausted : Database := created.putLease tenant runId lastAttempt

theorem created_runs {other : RunId} {run : RunRow}
    (h : created.runs.get? (rowKey tenant other) = some run) : other = runId ∧ run = queuedRun.row := by
  have hruns : created.runs = Dict.empty.insert (rowKey tenant runId) queuedRun.row := rfl
  rw [hruns, Dict.get?_insert] at h
  split_ifs at h with hkey
  · exact ⟨(rowKey_inj.mp hkey).2, (Option.some.inj h).symm⟩
  · cases h

theorem first_of_created {db : Database} {now : DateTime} (hruns : db.runs = created.runs)
    (h : db.Eligible tenant now runId) : db.First tenant now runId := by
  refine ⟨h, fun other _ run otherRun hrun hother => ?_⟩
  rw [hruns] at hrun hother
  obtain ⟨rfl, rfl⟩ := created_runs hother
  obtain ⟨-, rfl⟩ := created_runs hrun
  exact le_rfl

theorem created_queued : ∃ run, created.runs.get? (rowKey tenant runId) = some run ∧ run.runStatus = "queued" :=
  ⟨queuedRun.row, Dict.get?_insert_self Dict.empty _ _, rfl⟩

theorem created_eligible (now : DateTime) : created.Eligible tenant now runId :=
  ⟨created_queued, fun row hrow => by cases hrow⟩

theorem claimRequest_age : validateClaimAge nextClaimId opening = .ok () := by decide

theorem created_fresh : created.Fresh claimRequest :=
  ⟨⟨claimRequest_age, rfl, fun _ _ hrow => (by cases hrow), le_rfl⟩, LeaseClaimId.exact_of_early (by decide)⟩

theorem exhausted_lease {other : RunId} {row : WorkerLeaseRow}
    (h : exhausted.workerLeases.get? (rowKey tenant other) = some row) : row = lastAttempt := by
  have hleases : exhausted.workerLeases = Dict.empty.insert (rowKey tenant runId) lastAttempt := rfl
  rw [hleases, Dict.get?_insert] at h
  split_ifs at h
  · exact (Option.some.inj h).symm
  · cases h

theorem exhausted_fresh : exhausted.Fresh claimRequest := by
  refine ⟨⟨claimRequest_age, rfl, fun _ row hrow => ?_, le_rfl⟩, LeaseClaimId.exact_of_early (by decide)⟩
  rw [exhausted_lease hrow]
  decide

/-- A run that was queued a second later, with a smaller id. -/
def otherRun : Run where
  toRunFields := { queuedRun.toRunFields with
    runId := ⟨"run-0", by decide⟩
    createdAt := instant 1 (by decide)
    updatedAt := instant 1 (by decide)
    lastObservedAt := instant 1 (by decide) }
  valid := by decide

def pair : Database := created.putRun otherRun

def thirdClaimId : LeaseClaimId :=
  ⟨3000 * 2 ^ 80 + 7 * 2 ^ 76 + 2 * 2 ^ 62, by decide, by decide, by decide⟩

def firstClaim : ClaimRequest := claimAt claimId (instant 2 (by decide))
def secondClaim : ClaimRequest := claimAt nextClaimId (instant 3 (by decide))
def thirdClaim : ClaimRequest := claimAt thirdClaimId (instant 4 (by decide))

def lateClaim : ClaimRequest := claimAt thirdClaimId (instant 40 (by decide))

def pairHistory (older newer : LeaseGrant) : List (ClaimRequest × Except Failure LeaseClaimOutcome) :=
  [(firstClaim, .ok ⟨some older, false⟩), (secondClaim, .ok ⟨some newer, false⟩),
    (thirdClaim, .ok ⟨none, false⟩)]

theorem pair_runs {other : RunId} {run : RunRow} (h : pair.runs.get? (rowKey tenant other) = some run) :
    (other = runId ∧ run = queuedRun.row) ∨ (other = otherRun.runId ∧ run = otherRun.row) := by
  have hruns : pair.runs = created.runs.insert (rowKey tenant otherRun.runId) otherRun.row := rfl
  rw [hruns, Dict.get?_insert] at h
  split_ifs at h with hkey
  · exact .inr ⟨(rowKey_inj.mp hkey).2, (Option.some.inj h).symm⟩
  · exact .inl (created_runs h)

end Sample

namespace Database
open Sample

/-- The claim of a queued run whose released lease had the last attempt number raises. -/
theorem exhausted_claim_raises :
    exhausted.Fresh claimRequest ∧ exhausted.First tenant claimRequest.requestNow runId ∧
      ∃ e, exhausted.execute claimRequest = some (exhausted, .error e) := by
  have heligible : exhausted.Eligible tenant claimRequest.requestNow runId := by
    refine ⟨created_queued, fun row hrow hreleased => ?_⟩
    rw [exhausted_lease hrow] at hreleased
    cases hreleased
  have hfirst : exhausted.First tenant claimRequest.requestNow runId := first_of_created rfl heligible
  have hfull : exhausted.Exhausted claimRequest.command claimRequest.mutationNow runId :=
    .inl ⟨lastAttempt, Dict.get?_insert_self Dict.empty _ _, .inl rfl⟩
  exact ⟨exhausted_fresh, hfirst, (serves_of_fresh exhausted_fresh).raises runId hfirst hfull⟩

theorem pair_eligible {now : DateTime} {other : RunId} :
    pair.Eligible tenant now other ↔ other = runId ∨ other = otherRun.runId := by
  constructor
  · rintro ⟨⟨run, hrun, -⟩, -⟩
    exact (pair_runs hrun).imp And.left And.left
  · rintro (rfl | rfl)
    · refine ⟨⟨queuedRun.row, ?_, rfl⟩, fun row hrow => by cases hrow⟩
      have hother : rowKey tenant runId ≠ rowKey tenant otherRun.runId :=
        fun hkey => absurd (rowKey_inj.mp hkey).2 (by decide)
      exact (Dict.get?_insert_ne _ _ hother).trans (Dict.get?_insert_self Dict.empty _ _)
    · exact ⟨⟨otherRun.row, Dict.get?_insert_self _ _ _, rfl⟩, fun row hrow => by cases hrow⟩

theorem pair_first {now : DateTime} : pair.First tenant now runId := by
  refine ⟨pair_eligible.mpr (.inl rfl), fun other _ run found hrun hfound => ?_⟩
  have hqueued : run.updatedAt = opening := by
    rcases pair_runs hrun with ⟨-, rfl⟩ | ⟨hid, -⟩
    · rfl
    · exact absurd hid (by decide)
  rcases pair_runs hfound with ⟨rfl, rfl⟩ | ⟨rfl, rfl⟩
  · cases hrun.symm.trans hfound
    exact le_rfl
  · refine (Prod.Lex.toLex_lt_toLex.mpr (.inl ?_)).le
    change run.updatedAt < otherRun.row.updatedAt
    rw [hqueued]
    decide

theorem pair_room (db : Database) {claimId : LeaseClaimId} {now : DateTime} {other : RunId}
    (hfree : db.workerLeases.get? (rowKey tenant other) = none) (hnow : now.micros ≤ 1000000000) :
    ¬ db.Exhausted (claimAt claimId now).command now other := by
  rintro (⟨row, hrow, -⟩ | hlate)
  · cases hfree.symm.trans hrow
  · have hduration : (claimAt claimId now).command.duration.micros = 30 * 1000000 := rfl
    rw [hduration, maxMicros] at hlate
    omega

theorem claims_drain_pair : ∃ older newer,
    older.proof.runId = runId ∧ newer.proof.runId = otherRun.runId ∧
      pair.Drains tenant firstClaim.requestNow (pairHistory older newer) := by
  have hunused : ∀ claimId now, validateClaimAge claimId now = .ok () → pair.Unused (claimAt claimId now) :=
    fun _ _ hage => ⟨hage, rfl, fun _ _ hrow => (by cases hrow), le_rfl⟩
  have hfirst : pair.Fresh firstClaim := ⟨hunused _ _ (by decide), LeaseClaimId.exact_of_early (by decide)⟩
  obtain ⟨one, row, older, hone, holder⟩ := execute_first hfirst pair_first (pair_room pair rfl (by decide))
  -- the second claim finds the other run, while the first lease lasts
  have holderLasts : ∀ t : DateTime, t.micros < 32000000 → t < older.leaseExpiresAt := by
    intro t ht
    rw [DateTime.lt_iff, holder.expiry]
    exact ht
  have honeEligible : ∀ {t : DateTime} {other}, t.micros < 32000000 →
      (one.Eligible tenant t other ↔ other = otherRun.runId) := by
    intro t other ht
    refine (holder.eligible_iff (holderLasts t ht)).trans ?_
    constructor
    · rintro ⟨heligible, hne⟩
      exact (pair_eligible.mp heligible).resolve_left hne
    · rintro rfl
      exact ⟨pair_eligible.mpr (.inr rfl), by decide⟩
  have hsecond : one.Fresh secondClaim :=
    ⟨holder.unused (hunused _ _ (by decide)) (by decide), LeaseClaimId.exact_of_early (by decide)⟩
  have hnext : one.First tenant secondClaim.requestNow otherRun.runId := by
    refine ⟨(honeEligible (by decide)).mpr rfl, fun other hother run found hrun hfound => ?_⟩
    obtain rfl := (honeEligible (by decide)).mp hother
    cases hrun.symm.trans hfound
    exact le_rfl
  have hfree : one.workerLeases.get? (rowKey tenant otherRun.runId) = none :=
    (holder.kept (by decide)).trans rfl
  obtain ⟨two, row', newer, htwo, hnewer⟩ := execute_first hsecond hnext (pair_room one hfree (by decide))
  -- the third claim finds nothing, while both leases last
  have hthird : two.Fresh thirdClaim :=
    ⟨hnewer.unused (holder.unused (hunused _ _ (by decide)) (by decide)) (by decide),
      LeaseClaimId.exact_of_early (by decide)⟩
  have hnewerLasts : ∀ t : DateTime, t.micros < 33000000 → t < newer.leaseExpiresAt := by
    intro t ht
    rw [DateTime.lt_iff, hnewer.expiry]
    exact ht
  have hnone : ∀ other, ¬ two.Eligible tenant thirdClaim.requestNow other := by
    intro other heligible
    obtain ⟨hother, hne⟩ := (hnewer.eligible_iff (hnewerLasts _ (by decide))).mp heligible
    exact hne ((honeEligible (by decide)).mp hother)
  obtain ⟨last, hlast⟩ := execute_nothing hthird hnone
  refine ⟨older, newer, holder.run, hnewer.run, ?_⟩
  have hserved : Served pair firstClaim.requestNow (pairHistory older newer) last :=
    .cons _ _ _ _ _ _ _ hfirst le_rfl hone (.cons _ _ _ _ _ _ _ hsecond (by decide) htwo
      (.cons _ _ _ _ _ _ _ hthird (by decide) hlast (.nil _ _)))
  have hall : ofTenant tenant (pairHistory older newer) = pairHistory older newer := rfl
  have hquiet : pair.Quiet tenant firstClaim.requestNow (pairHistory older newer) := by
    constructor
    case held =>
      rw [hall, pairHistory]
      refine .cons ?_ (.cons ?_ (.cons (fun _ hserved => absurd hserved List.not_mem_nil) .nil))
      · rintro served hserved grant hgrant
        cases hgrant
        rcases List.mem_cons.mp hserved with rfl | hserved
        · exact holderLasts secondClaim.requestNow (by decide)
        · rw [List.mem_singleton.mp hserved]
          exact holderLasts thirdClaim.requestNow (by decide)
      · rintro served hserved grant hgrant
        cases hgrant
        rw [List.mem_singleton.mp hserved]
        exact hnewerLasts thirdClaim.requestNow (by decide)
    case others =>
      rintro served - other ⟨hqueued, -⟩
      exact ⟨hqueued, fun row hrow => by cases hrow⟩
    case room =>
      rw [hall, pairHistory]
      rintro served hserved other -
      simp only [List.mem_cons, List.not_mem_nil, or_false] at hserved
      rcases hserved with rfl | rfl | rfl <;> exact pair_room pair rfl (by decide)
  exact (claims_drain_queue.2 pair tenant firstClaim.requestNow _ last hserved hquiet).2.2.1

end Database
end Zhiyi
