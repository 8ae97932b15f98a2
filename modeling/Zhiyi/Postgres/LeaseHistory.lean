import Zhiyi.Library.Leasing
import Zhiyi.Postgres.Transactions

set_option autoImplicit false

/-! Lease ownership over whole histories of both repositories. Each transaction is a
move of the lease of every run, so tenures, counters and fences are those of leases. -/
namespace Zhiyi
open Python Interleaving Leasing

/-- The worker, the claim and the token digest, which an attempt keeps. -/
abbrev LeaseOwner := String × ℕ × List ℕ

abbrev LeaseDetail := ℕ × DateTime × ℕ

abbrev RunLease := Lease DateTime LeaseOwner LeaseDetail

namespace WorkerLeaseRow

def lease (row : WorkerLeaseRow) : RunLease where
  owner := (row.workerId, row.claimId, row.tokenDigest)
  attempt := row.attemptNo
  version := row.leaseVersion
  acquired := row.acquiredAt
  expires := row.leaseExpiresAt
  released := row.releasedAt
  detail := (row.durationSeconds, row.heartbeatAt, row.recordFormatVersion)

theorem lease_injective : Function.Injective lease := by
  rintro ⟨a, _⟩ ⟨b, _⟩ h
  simp only [lease, Lease.mk.injEq, Prod.mk.injEq] at h
  obtain ⟨⟨hworker, hclaim, hdigest⟩, hattempt, hversion, hacquired, hexpires, hreleased, hduration,
    hheartbeat, hformat⟩ := h
  have hcolumns : a = b := by
    cases a
    cases b
    simp_all
  cases hcolumns
  rfl

end WorkerLeaseRow

namespace Database

def slot (db : Database) (key : RunRowKey) : Option RunLease :=
  (db.workerLeases.get? key).map WorkerLeaseRow.lease

def freshProof : Option (Database × Except Failure LeaseClaimOutcome) → Option LeaseAuthorityProof
  | some (_, .ok ⟨some grant, false⟩) => some grant.proof
  | _ => none

def issued (db : Database) : Call → Option LeaseAuthorityProof
  | .claim command token requestNow clock raceNow =>
    freshProof (db.claim command token requestNow clock raceNow)
  | _ => none

def proofKey (proof : LeaseAuthorityProof) : RunRowKey := rowKey proof.tenantId proof.runId

def appliedTo (proof : LeaseAuthorityProof) : Except Failure ConditionalLeaseOutcome → Option RunRowKey
  | .ok outcome => if outcome.applied then some (proofKey proof) else none
  | .error _ => none

/-- The run whose lease a call reports as granted, renewed or released. -/
def mutated (db : Database) : Call → Option RunRowKey
  | .renew command platformNow => appliedTo command.proof (db.renew command platformNow).2
  | .release command platformNow => appliedTo command.proof (db.release command platformNow).2
  | call => (db.issued call).map proofKey

def mutationTime (found : Except Failure (Option LeaseClaimOutcome))
    (selection : Option (Except Failure (Option (RunId × Option WorkerLeaseRecord) × DateTime))) :
    Option DateTime :=
  match found, selection with
  | .ok none, some (.ok (_, mutationNow)) => some mutationNow
  | _, _ => none

/-- The reading of the clock that decides a call. -/
def moment (db : Database) : Call → Option DateTime
  | .commit _ => none
  | .commitWithLease _ platformNow _ => some platformNow
  | .claim command _ requestNow clock _ => mutationTime (db.claimLookup command requestNow)
    (db.claimLoop command.tenantId (db.selectEligibleRun command.tenantId requestNow) clock.tail)
  | .renew _ platformNow => some platformNow
  | .release _ platformNow => some platformNow

inductive Plays (db : Database) (call : Call) (key : RunRowKey) : Prop
  | silent (hrow : (db.perform call).workerLeases.get? key = db.workerLeases.get? key)
    (hissued : ∀ proof, db.issued call = some proof → proofKey proof ≠ key)
    (hmutated : db.mutated call ≠ some key)
  | granted (now : DateTime) (row : WorkerLeaseRow) (proof : LeaseAuthorityProof)
    (hmoment : db.moment call = some now) (hgrant : Grant now row.lease (db.slot key))
    (hrow : (db.perform call).workerLeases.get? key = some row) (hissued : db.issued call = some proof)
    (hkey : proofKey proof = key) (hnames : Names row proof) (hmutated : db.mutated call = some key)
  | updated (now : DateTime) (old row : WorkerLeaseRow) (hmoment : db.moment call = some now)
    (hold : db.workerLeases.get? key = some old) (hupdates : Updates old row now)
    (hrow : (db.perform call).workerLeases.get? key = some row) (hissued : db.issued call = none)
    (hmutated : db.mutated call = some key)

variable {db : Database} {key : RunRowKey}

theorem Updates.update {old row : WorkerLeaseRow} {now : DateTime} (h : Updates old row now) :
    Update now old.lease row.lease := by
  have howner : row.lease.owner = old.lease.owner := by
    simp only [WorkerLeaseRow.lease, h.worker, h.claim, h.digest]
  rcases h.ends with ⟨hlive, hexpires, hreleased⟩ | ⟨hexpires, hreleased⟩
  · refine .renew ?_ howner h.attempt h.version h.acquired hexpires hreleased
    rintro (hsome | hexpired)
    · have hheld : old.lease.released = none := h.held
      simp [hheld] at hsome
    · exact absurd hlive (not_lt.mpr hexpired)
  · exact .release h.held howner h.attempt h.version h.acquired hexpires hreleased

theorem plays_of_leases {call : Call} (hleases : (db.perform call).workerLeases = db.workerLeases)
    (hissued : db.issued call = none) (hmutated : db.mutated call = none) : db.Plays call key :=
  .silent (by rw [hleases]) (by rw [hissued]; exact nofun) (by rw [hmutated]; exact nofun)

theorem keptByWrites_leases (c : Candidate) (db : Database) : KeptByWrites c fun next =>
    next.workerLeases = db.workerLeases ∧ next.workerLeaseClaimReceipts = db.workerLeaseClaimReceipts where
  putRun _ h := h
  insertEvent _ next event _ h hinsert := by
    rw [(insertEvent_eq_ok hinsert).2]
    exact h
  insertReceipt _ next record h hinsert := by
    rw [(insertReceipt_eq_some hinsert).2]
    exact h

theorem Commits.leases {c : Candidate} {guard : Prop} {result : Database × Except Failure CommitOutcome}
    (h : db.Commits c guard result) : result.1.workerLeases = db.workerLeases ∧
      result.1.workerLeaseClaimReceipts = db.workerLeaseClaimReceipts :=
  h.kept (keptByWrites_leases c db) ⟨rfl, rfl⟩

theorem get?_putLease (db : Database) (key : RunRowKey) (tenantId : TenantId) (runId : RunId)
    (row : WorkerLeaseRow) :
    (db.putLease tenantId runId row).workerLeases.get? key =
      if key = rowKey tenantId runId then some row else db.workerLeases.get? key := by
  unfold putLease
  rw [Dict.get?_insert]
  split_ifs <;> rfl

theorem plays_mutates {call : Call} {proof : LeaseAuthorityProof} {expectedVersion : LeaseVersion}
    {now : DateTime} {result : Database × Except Failure ConditionalLeaseOutcome}
    (h : db.Mutates proof expectedVersion now result) (hperform : db.perform call = result.1)
    (hmoment : db.moment call = some now) (hissued : db.issued call = none)
    (hmutated : db.mutated call = appliedTo proof result.2) : db.Plays call key := by
  cases h with
  | refused answer hanswer =>
    refine plays_of_leases (by rw [hperform]) hissued (hmutated.trans ?_)
    cases answer with
    | error e => rfl
    | ok outcome => simp [appliedTo, hanswer outcome rfl]
  | applied old row outcome hold hnames hversion hupdates happlied =>
    have hreports : db.mutated call = some (proofKey proof) := by
      rw [hmutated]
      simp [appliedTo, happlied]
    have hget := get?_putLease db key proof.tenantId proof.runId row
    rw [show db.putLease proof.tenantId proof.runId row = db.perform call from hperform.symm] at hget
    by_cases hkey : key = proofKey proof
    · subst hkey
      rw [proofKey, if_pos rfl] at hget
      exact .updated now old row hmoment hold hupdates hget hissued hreports
    · have hother : key ≠ rowKey proof.tenantId proof.runId := hkey
      rw [if_neg hother] at hget
      exact .silent hget (by rw [hissued]; exact nofun) (by
        rw [hreports]
        exact fun h => hkey (Option.some.inj h).symm)

section
variable {command : ClaimLeaseCommand} {token : LeaseToken} {now : DateTime} {runId : RunId}
  {row : WorkerLeaseRow} {receipt : WorkerLeaseClaimReceiptRecord} {grant : LeaseGrant}
  {current : Option WorkerLeaseRecord} {lease : WorkerLeaseRecord}

theorem Grants.proof (h : db.Grants command token now runId row receipt grant current lease) :
    grant.proof = ⟨command.tenantId, runId, command.workerId, command.claimId, lease.attemptNo, token⟩ := by
  obtain ⟨result, hresult, hgrant⟩ := bind_eq_ok.mp h.granted
  obtain ⟨renewBy, -, hgrant⟩ := bind_eq_ok.mp hgrant
  rw [raising_eq_ok] at hgrant
  obtain ⟨_, rfl⟩ := construct_eq_ok hgrant
  obtain ⟨issuedAt, replayExpiresAt, hfields⟩ := claimReceipt_fields h.receipted
  obtain ⟨-, hlease, -⟩ := nextLease_fields h.next
  have hrun : lease.runId = runId := by rw [hlease]
  unfold claimedResult at hresult
  simp only [hfields, Option.map_some] at hresult
  cases Except.ok.inj hresult
  simp only [receiptProof, hfields, resultOf, hrun]

theorem NextCounters.first_values {attemptNo leaseVersion : PositiveCounter}
    (h : NextCounters none attemptNo leaseVersion) : attemptNo.value = 1 ∧ leaseVersion.value = 1 := by
  cases h
  exact ⟨rfl, rfl⟩

theorem NextCounters.next_values {attemptNo leaseVersion : PositiveCounter}
    (h : NextCounters (some lease) attemptNo leaseVersion) :
    attemptNo.value = lease.attemptNo.value + 1 ∧ leaseVersion.value = lease.leaseVersion.value + 1 := by
  cases h with
  | next _ hattempt hversion =>
    exact ⟨PositiveCounter.next_eq_ok hattempt, PositiveCounter.next_eq_ok hversion⟩

theorem Grants.names (h : db.Grants command token now runId row receipt grant current lease) :
    Names row grant.proof := by
  obtain ⟨-, hlease, -⟩ := nextLease_fields h.next
  rw [h.proof]
  unfold Names
  rw [h.stored]
  simp only [WorkerLeaseColumns.map, encodeWorkerLease]
  exact ⟨by rw [hlease], by rw [hlease], by rw [hlease], trivial⟩

theorem Grants.takes (h : db.Grants command token now runId row receipt grant current lease) :
    Grant now row.lease (db.slot (rowKey command.tenantId runId)) := by
  obtain ⟨hcounters, hlease, hexpires⟩ := nextLease_fields h.next
  have hinstant : ∀ d : DateTime, (utc d).instant = d := fun _ => rfl
  have hacquired : row.lease.acquired = now := by
    simp only [WorkerLeaseRow.lease, h.stored, WorkerLeaseColumns.map, encodeWorkerLease, hinstant]
    rw [hlease]
  have hreleased : row.lease.released = none := by
    simp only [WorkerLeaseRow.lease, h.stored, WorkerLeaseColumns.map, encodeWorkerLease]
    rw [hlease]
    rfl
  have hends : row.lease.expires = lease.leaseExpiresAt := by
    simp only [WorkerLeaseRow.lease, h.stored, WorkerLeaseColumns.map, encodeWorkerLease, hinstant]
  have hlate : now < row.lease.expires := by
    have hmicros := DateTime.add_eq_ok hexpires
    have hpositive := command.duration.micros_pos
    rw [hends, DateTime.lt_iff, hmicros]
    omega
  have hattempt : row.lease.attempt = lease.attemptNo.value := by
    simp only [WorkerLeaseRow.lease, h.stored, WorkerLeaseColumns.map, encodeWorkerLease]
  have hversion : row.lease.version = lease.leaseVersion.value := by
    simp only [WorkerLeaseRow.lease, h.stored, WorkerLeaseColumns.map, encodeWorkerLease]
  have hclaimable := h.claimable
  rw [isClaimable, Bool.and_eq_true] at hclaimable
  have hload := h.load
  rcases loadLease_cases db command.tenantId runId with
    ⟨hnone, hnoLease⟩ | ⟨old, oldLease, hold, hstores, hsome⟩
  · cases Except.ok.inj (hnoLease.symm.trans hload)
    unfold slot
    rw [hnone]
    have hvalues := hcounters.first_values
    exact .first (hattempt.trans hvalues.1) (hversion.trans hvalues.2) hacquired hlate hreleased
  · cases Except.ok.inj (hsome.symm.trans hload)
    unfold slot
    rw [hold]
    have hvalues := hcounters.next_values
    rw [hstores.attempt, hstores.version] at hvalues
    refine .takeOver old.lease ?_ (hattempt.trans hvalues.1) (hversion.trans hvalues.2) hacquired hlate
      hreleased
    have hfree := hclaimable.2
    simp only [Option.all_some, Bool.or_eq_true, decide_eq_true_eq] at hfree
    rwa [hstores.released, hstores.expires] at hfree

end

theorem replayed_of_lookup {command : ClaimLeaseCommand} {now : DateTime} {outcome : LeaseClaimOutcome}
    (h : db.claimLookup command now = .ok (some outcome)) : outcome.replayed = true := by
  obtain ⟨_, -, h⟩ := bind_eq_ok.mp h
  obtain ⟨receipt, -, h⟩ := bind_eq_ok.mp h
  cases receipt with
  | none => cases h
  | some receipt =>
    obtain ⟨found, hfound, h⟩ := bind_eq_ok.mp h
    cases Except.ok.inj h
    unfold outcomeFromReceipt at hfound
    split at hfound
    · cases Except.ok.inj hfound
      rfl
    · obtain ⟨result, -, hfound⟩ := bind_eq_ok.mp hfound
      obtain ⟨authoritative, -, hfound⟩ := bind_eq_ok.mp hfound
      obtain ⟨grant, -, hfound⟩ := bind_eq_ok.mp hfound
      cases Except.ok.inj hfound
      rfl

theorem plays_claim {command : ClaimLeaseCommand} {token : LeaseToken} {requestNow raceNow : DateTime}
    {clock : List DateTime} {result : Option (Database × Except Failure LeaseClaimOutcome)}
    (hclaim : db.claim command token requestNow clock raceNow = result)
    (h : db.Claims command token requestNow clock result) :
    db.Plays (.claim command token requestNow clock raceNow) key := by
  have hperform : db.perform (.claim command token requestNow clock raceNow) =
      (result.map Prod.fst).getD db := congrArg (fun result => (result.map Prod.fst).getD db) hclaim
  have hissued : db.issued (.claim command token requestNow clock raceNow) = freshProof result :=
    congrArg freshProof hclaim
  have hmutated : db.mutated (.claim command token requestNow clock raceNow) =
      (freshProof result).map proofKey := congrArg (Option.map proofKey) hissued
  cases h with
  | unanswered => exact plays_of_leases (by rw [hperform]; rfl) hissued hmutated
  | failed e => exact plays_of_leases (by rw [hperform]; rfl) hissued hmutated
  | noWork now receipt => exact plays_of_leases (by rw [hperform]; rfl) hissued hmutated
  | replayed now outcome hlookup =>
    have hreplayed := replayed_of_lookup hlookup
    obtain ⟨grant, replayed⟩ := outcome
    cases hreplayed
    have hnone : freshProof (some (db, .ok ⟨grant, true⟩)) = none := by cases grant <;> rfl
    rw [hnone] at hissued hmutated
    exact plays_of_leases (by rw [hperform]; rfl) hissued hmutated
  | granted now runId row receipt grant current lease hselects hgrants hfree =>
    have hmoment : db.moment (.claim command token requestNow clock raceNow) = some now := by
      change mutationTime (db.claimLookup command requestNow) (db.claimLoop command.tenantId
        (db.selectEligibleRun command.tenantId requestNow) clock.tail) = some now
      rw [hselects.1, hselects.2]
      rfl
    have hkey : proofKey grant.proof = rowKey command.tenantId runId := by rw [hgrants.proof]; rfl
    have hget := get?_putLease db key command.tenantId runId row
    by_cases hsame : key = rowKey command.tenantId runId
    · rw [if_pos hsame] at hget
      rw [hsame] at hget ⊢
      exact .granted now row grant.proof hmoment hgrants.takes (by rw [hperform]; exact hget) hissued hkey
        hgrants.names (hmutated.trans (congrArg some hkey))
    · rw [if_neg hsame] at hget
      refine .silent (by rw [hperform]; exact hget) ?_ ?_
      · intro proof hproof
        cases Option.some.inj (hissued.symm.trans hproof)
        exact fun h => hsame (h.symm.trans hkey)
      · rw [hmutated]
        exact fun h => hsame ((Option.some.inj h).symm.trans hkey)

theorem plays (db : Database) (call : Call) (key : RunRowKey) : db.Plays call key := by
  cases call with
  | commit c => exact plays_of_leases (db.commit_commits c).leases.1 rfl rfl
  | commitWithLease proof now c =>
    exact plays_of_leases (db.commitWithLease_commits proof now c).leases.1 rfl rfl
  | renew command now => exact plays_mutates (db.renew_mutates command now) rfl rfl rfl rfl
  | release command now => exact plays_mutates (db.release_mutates command now) rfl rfl rfl rfl
  | claim command token requestNow clock raceNow =>
    exact plays_claim rfl (db.claim_claims command token requestNow clock raceNow)

def moments : Database → List Call → List DateTime
  | _, [] => []
  | db, call :: calls => (db.moment call).toList ++ moments (db.perform call) calls

/-- From a time on, the clock does not go back. -/
def Timed (start : DateTime) (db : Database) (calls : List Call) : Prop :=
  (start :: db.moments calls).IsChain (· ≤ ·)

def slots (key : RunRowKey) : Database → List Call → List (DateTime × Option RunLease)
  | _, [] => []
  | db, call :: calls =>
    ((db.moment call).map fun now => (now, (db.perform call).slot key)).toList ++
      slots key (db.perform call) calls

def issuedBy (db : Database) (key : RunRowKey) (call : Call) : List LeaseAuthorityProof :=
  (db.issued call).toList.filter fun proof => proofKey proof = key

def issuedFor (key : RunRowKey) : Database → List Call → List LeaseAuthorityProof
  | _, [] => []
  | db, call :: calls => db.issuedBy key call ++ issuedFor key (db.perform call) calls

/-- The grants, renewals and releases of a run that were applied. -/
def mutationsOf (key : RunRowKey) : Database → List Call → ℕ
  | _, [] => 0
  | db, call :: calls =>
    (if db.mutated call = some key then 1 else 0) + mutationsOf key (db.perform call) calls

def attemptOf (db : Database) (key : RunRowKey) : ℕ :=
  ((db.workerLeases.get? key).map (·.attemptNo)).getD 0

def versionOf (db : Database) (key : RunRowKey) : ℕ :=
  ((db.workerLeases.get? key).map (·.leaseVersion)).getD 0

theorem Plays.move {call : Call} (h : db.Plays call key) {now : DateTime}
    (hmoment : db.moment call = some now) : Move now (db.slot key) ((db.perform call).slot key) := by
  cases h with
  | silent hrow =>
    have hslot : (db.perform call).slot key = db.slot key := by rw [slot, hrow, slot]
    rw [hslot]
    exact .stay
  | granted reading row proof hreading hgrant hrow =>
    cases hmoment.symm.trans hreading
    have hslot : (db.perform call).slot key = some row.lease := by rw [slot, hrow]; rfl
    rw [hslot]
    exact .grant row.lease hgrant
  | updated reading old row hreading hold hupdates hrow =>
    cases hmoment.symm.trans hreading
    have hslot : (db.perform call).slot key = some row.lease := by rw [slot, hrow]; rfl
    rw [hslot]
    exact .update old.lease row.lease (by rw [slot, hold]; rfl) hupdates.update

theorem Plays.still {call : Call} (h : db.Plays call key) (hmoment : db.moment call = none) :
    (db.perform call).slot key = db.slot key := by
  cases h with
  | silent hrow => rw [slot, hrow, slot]
  | granted _ _ _ hreading => exact absurd (hmoment.symm.trans hreading) nofun
  | updated _ _ _ hreading => exact absurd (hmoment.symm.trans hreading) nofun

theorem slots_moves (db : Database) (calls : List Call) (key : RunRowKey) :
    Moves (db.slot key) (db.slots key calls) ∧
      final (db.slot key) (db.slots key calls) = (repositories.runFrom db calls).slot key := by
  induction calls generalizing db with
  | nil => exact ⟨.nil _, rfl⟩
  | cons call calls ih =>
    have hplays := db.plays call key
    obtain ⟨hmoves, hfinal⟩ := ih (db.perform call)
    rw [slots]
    cases hmoment : db.moment call with
    | none =>
      rw [run_cons, ← hplays.still hmoment]
      exact ⟨hmoves, hfinal⟩
    | some now =>
      rw [run_cons]
      exact ⟨.cons (hplays.move hmoment) hmoves, hfinal⟩

theorem slots_times (db : Database) (calls : List Call) (key : RunRowKey) :
    (db.slots key calls).map Prod.fst = db.moments calls := by
  induction calls generalizing db with
  | nil => rfl
  | cons call calls ih =>
    rw [slots, moments, List.map_append, ih]
    cases db.moment call <;> rfl

theorem Timed.clocked {start : DateTime} {calls : List Call} (h : db.Timed start calls) (key : RunRowKey) :
    Clocked start (db.slots key calls) := by
  unfold Clocked
  rw [slots_times]
  exact h

theorem attemptOf_slot (db : Database) (key : RunRowKey) :
    db.attemptOf key = ((db.slot key).map Lease.attempt).getD 0 := by
  rw [attemptOf, slot, Option.map_map]
  rfl

theorem versionOf_slot (db : Database) (key : RunRowKey) :
    db.versionOf key = ((db.slot key).map Lease.version).getD 0 := by
  rw [versionOf, slot, Option.map_map]
  rfl

theorem attemptOf_row {row : WorkerLeaseRow} (h : db.workerLeases.get? key = some row) :
    db.attemptOf key = row.attemptNo := by
  rw [attemptOf, h]
  rfl

theorem versionOf_row {row : WorkerLeaseRow} (h : db.workerLeases.get? key = some row) :
    db.versionOf key = row.leaseVersion := by
  rw [versionOf, h]
  rfl

/-- What one call adds to the counters of a run. -/
structure Counts (db : Database) (call : Call) (key : RunRowKey) : Prop where
  attempt : (db.perform call).attemptOf key = db.attemptOf key + (db.issuedBy key call).length
  numbers : (db.issuedBy key call).map (·.attemptNo.value) =
    List.range' (db.attemptOf key + 1) (db.issuedBy key call).length
  version : (db.perform call).versionOf key =
    db.versionOf key + (if db.mutated call = some key then 1 else 0)
  still : db.mutated call ≠ some key →
    (db.perform call).workerLeases.get? key = db.workerLeases.get? key

theorem Plays.counts {call : Call} (h : db.Plays call key) : db.Counts call key := by
  cases h with
  | silent hrow hissued hmutated =>
    have hnone : db.issuedBy key call = [] := by
      refine List.filter_eq_nil_iff.mpr fun proof hproof => ?_
      simpa using hissued proof (Option.mem_toList.mp hproof)
    constructor
    · rw [hnone, attemptOf, hrow]
      rfl
    · simp [hnone]
    · rw [if_neg hmutated, versionOf, hrow]
      rfl
    · exact fun _ => hrow
  | granted now row proof hmoment hgrant hrow hissued hkey hnames hmutated =>
    have hone : db.issuedBy key call = [proof] := by
      simp [issuedBy, hissued, hkey]
    have hcounts := hgrant.counts
    rw [← attemptOf_slot, ← versionOf_slot] at hcounts
    constructor
    · rw [hone, attemptOf_row hrow]
      exact hcounts.1
    · have hnumber : proof.attemptNo.value = db.attemptOf key + 1 := hnames.2.2.2 ▸ hcounts.1
      rw [hone, List.map_singleton, hnumber]
      rfl
    · rw [if_pos hmutated, versionOf_row hrow]
      exact hcounts.2
    · exact fun h => absurd hmutated h
  | updated now old row hmoment hold hupdates hrow hissued hmutated =>
    have hnone : db.issuedBy key call = [] := by simp [issuedBy, hissued]
    constructor
    · rw [hnone, attemptOf_row hrow, attemptOf_row hold, hupdates.attempt]
      rfl
    · simp [hnone]
    · rw [if_pos hmutated, versionOf_row hrow, versionOf_row hold, hupdates.version]
    · exact fun h => absurd hmutated h

/-- What a history adds to the counters of a run: as many attempts as it has fresh grants, which
    number them, and as many versions as applied changes; at the same version the row is the same. -/
structure CountsRun (db : Database) (calls : List Call) (key : RunRowKey) (after : Database) : Prop where
  attempt : after.attemptOf key = db.attemptOf key + (db.issuedFor key calls).length
  numbers : (db.issuedFor key calls).map (·.attemptNo.value) =
    List.range' (db.attemptOf key + 1) (db.issuedFor key calls).length
  version : after.versionOf key = db.versionOf key + db.mutationsOf key calls
  same : after.versionOf key = db.versionOf key →
    after.workerLeases.get? key = db.workerLeases.get? key

theorem counts_run (db : Database) (calls : List Call) (key : RunRowKey) :
    db.CountsRun calls key (repositories.runFrom db calls) := by
  induction calls generalizing db with
  | nil => exact ⟨rfl, rfl, rfl, fun _ => rfl⟩
  | cons call calls ih =>
    have hcounts := (db.plays call key).counts
    have hrest := ih (db.perform call)
    have hattempt := hrest.attempt
    have hversion := hrest.version
    rw [hcounts.attempt, Nat.add_assoc, ← List.length_append] at hattempt
    rw [hcounts.version, Nat.add_assoc] at hversion
    rw [run_cons]
    refine ⟨hattempt, ?_, hversion, fun hsame => ?_⟩
    · rw [issuedFor, List.map_append, hcounts.numbers, hrest.numbers, hcounts.attempt, List.length_append,
        ← List.range'_append_1, Nat.add_right_comm]
    · have hzero : db.mutated call ≠ some key := by
        intro hmutated
        rw [if_pos hmutated] at hversion
        omega
      have hbetween : (db.perform call).versionOf key = db.versionOf key := by
        rw [hcounts.version, if_neg hzero, Nat.add_zero]
      exact (hrest.same (hsame.trans hbetween.symm)).trans (hcounts.still hzero)

def Call.expects : Call → Option LeaseVersion
  | .renew command _ => some command.expectedVersion
  | .release command _ => some command.expectedVersion
  | _ => none

theorem Mutates.expected {proof : LeaseAuthorityProof} {expectedVersion : LeaseVersion} {now : DateTime}
    {result : Database × Except Failure ConditionalLeaseOutcome}
    (h : db.Mutates proof expectedVersion now result) (happlied : appliedTo proof result.2 = some key) :
    db.versionOf key = expectedVersion.value := by
  cases h with
  | refused answer hanswer =>
    cases answer with
    | error e => cases happlied
    | ok outcome => simp [appliedTo, hanswer outcome rfl] at happlied
  | applied row next outcome hrow hnames hversion hupdates happly =>
    simp only [appliedTo, happly, if_true, Option.some.injEq] at happlied
    rw [← happlied]
    exact (versionOf_row hrow).trans hversion

theorem expected_of_mutated {call : Call} {version : LeaseVersion} (h : db.mutated call = some key)
    (hexpects : call.expects = some version) : db.versionOf key = version.value := by
  cases call with
  | renew command now =>
    cases hexpects
    exact (db.renew_mutates command now).expected h
  | release command now =>
    cases hexpects
    exact (db.release_mutates command now).expected h
  | commit | commitWithLease | claim => cases hexpects

/-- The attempt number and the version of a lease count its grants and its applied changes and
    never come back to a value, so no version is changed twice. -/
theorem lease_counters_count (db : Database) (calls : List Call) (key : RunRowKey) :
    db.CountsRun calls key (repositories.runFrom db calls) ∧
      ∀ call, db.mutated call = some key →
        db.versionOf key < (repositories.runFrom (db.perform call) calls).versionOf key ∧
        ∀ version later, call.expects = some version → later.expects = some version →
          (repositories.runFrom (db.perform call) calls).mutated later ≠ some key := by
  refine ⟨db.counts_run calls key, fun call hmutated => ?_⟩
  have hcounts := (db.plays call key).counts.version
  have hlater := ((db.perform call).counts_run calls key).version
  rw [if_pos hmutated] at hcounts
  have hless : db.versionOf key < (repositories.runFrom (db.perform call) calls).versionOf key := by omega
  refine ⟨hless, fun version later hexpects hlaterExpects happlied => ?_⟩
  have hbefore := expected_of_mutated hmutated hexpects
  have hafter := expected_of_mutated happlied hlaterExpects
  omega

/-- The last lease of each attempt of a run in a history. -/
def tenures (db : Database) (key : RunRowKey) (calls : List Call) : List RunLease :=
  Leasing.tenures (db.slot key) (db.slots key calls)

/-- The proof is authoritative at this time. -/
def Authorizes (db : Database) (proof : LeaseAuthorityProof) (now : DateTime) : Prop :=
  ∃ authority, db.getAuthority proof now = .ok authority ∧ authority.authoritative = true

theorem Authorizes.row {proof : LeaseAuthorityProof} {now : DateTime} (h : db.Authorizes proof now) :
    ∃ row, db.workerLeases.get? (proofKey proof) = some row ∧ Names row proof ∧ ¬ row.lease.Over now := by
  obtain ⟨authority, hquery, hauthoritative⟩ := h
  cases hrow : db.workerLeases.get? (rowKey proof.tenantId proof.runId) with
  | none =>
    rw [getAuthority_of_none (.inl hrow)] at hquery
    cases Except.ok.inj hquery
    cases hauthoritative
  | some row =>
    cases hrun : db.runs.get? (rowKey proof.tenantId proof.runId) with
    | none =>
      rw [getAuthority_of_none (.inr hrun)] at hquery
      cases Except.ok.inj hquery
      cases hauthoritative
    | some run =>
      obtain ⟨lease, hlease, hstores⟩ := row.exists_lease proof.tenantId proof.runId
      rw [getAuthority_of_rows hrow hrun hlease] at hquery
      cases Except.ok.inj hquery
      obtain ⟨hmatches, hreleased, -, hlive⟩ := evaluateAuthority_eq_true.mp hauthoritative
      refine ⟨row, hrow, (matchesProof_iff hstores).mp hmatches, ?_⟩
      rintro (hsome | hexpired)
      · have hheld : row.lease.released = none := hstores.released.symm.trans hreleased
        simp [hheld] at hsome
      · rw [hstores.expires] at hlive
        exact absurd hlive (not_lt.mpr hexpired)

theorem issuedFor_key {calls : List Call} {proof : LeaseAuthorityProof} (h : proof ∈ db.issuedFor key calls) :
    proofKey proof = key := by
  induction calls generalizing db with
  | nil => cases h
  | cons call calls ih =>
    rcases List.mem_append.mp h with hhere | hlater
    · simpa using (List.mem_filter.mp hhere).2
    · exact ih hlater

/-- The tenures of a run that was never claimed are those of the attempts 1, 2, … that are granted,
    each ends before the next begins, and of all proofs ever issued for the run at most one is
    authoritative at any time. -/
theorem lease_tenures_disjoint (start : DateTime) (db : Database) (key : RunRowKey)
    (hunclaimed : db.workerLeases.get? key = none) (calls : List Call) (htimed : db.Timed start calls) :
    ((db.tenures key calls).map Lease.attempt = List.range' 1 (db.issuedFor key calls).length ∧
      (db.tenures key calls).Pairwise Lease.Before) ∧
    ∀ now, ∀ proof ∈ db.issuedFor key calls, ∀ other ∈ db.issuedFor key calls,
      (repositories.runFrom db calls).Authorizes proof now →
        (repositories.runFrom db calls).Authorizes other now → proof = other := by
  have hcounts := db.counts_run calls key
  obtain ⟨hmoves, hfinal⟩ := db.slots_moves calls key
  have hslot : db.slot key = none := by rw [slot, hunclaimed]; rfl
  rw [hslot] at hmoves hfinal
  obtain ⟨hchain, hfirst⟩ := hmoves.tenures (htimed.clocked key)
  have hattempts := attempts_of_chain hchain hfirst
  have hlength : (Leasing.tenures none (db.slots key calls)).length = (db.issuedFor key calls).length := by
    have hattempt := hcounts.attempt
    rw [attemptOf_slot, ← hfinal, ← hmoves.getLast?_tenures, last_attempt hattempts] at hattempt
    rw [hattempt, attemptOf_slot, hslot]
    exact Nat.zero_add _
  rw [tenures, hslot]
  refine ⟨⟨?_, pairwise_before hchain⟩, fun now proof hproof other hother hauthorizes hagain => ?_⟩
  · rw [hattempts, hlength]
  · obtain ⟨row, hrow, hnames, -⟩ := hauthorizes.row
    obtain ⟨otherRow, hotherRow, hotherNames, -⟩ := hagain.row
    rw [issuedFor_key hproof] at hrow
    rw [issuedFor_key hother] at hotherRow
    cases hrow.symm.trans hotherRow
    have hnodup : ((db.issuedFor key calls).map (·.attemptNo.value)).Nodup :=
      hcounts.numbers ▸ List.nodup_range'
    exact List.inj_on_of_nodup_map hnodup hproof hother
      (hnames.2.2.2.symm.trans hotherNames.2.2.2)

def claimCall (r : ClaimRequest) : Call :=
  .claim r.command r.token r.requestNow (r.unusedNow :: r.mutationNow :: r.clock) r.raceNow

theorem claimCall_grants {r : ClaimRequest} {runId : RunId} (hfresh : db.Fresh r)
    (hfirst : db.First r.command.tenantId r.requestNow runId)
    (hroom : ¬ db.Exhausted r.command r.mutationNow runId) : ∃ row grant,
      db.Granted (db.perform (claimCall r)) r runId row grant ∧
        db.moment (claimCall r) = some r.mutationNow ∧
        db.issuedBy (rowKey r.command.tenantId runId) (claimCall r) = [grant.proof] := by
  obtain ⟨next, row, grant, hexecute, hgranted⟩ := execute_first hfresh hfirst hroom
  obtain ⟨selected, -, hloop⟩ := claimLoop_selects_first hfresh.toUnused
  have hperform : db.perform (claimCall r) = ((db.execute r).map Prod.fst).getD db := rfl
  have hissued : db.issued (claimCall r) = freshProof (db.execute r) := rfl
  have hmoment : db.moment (claimCall r) = mutationTime (db.claimLookup r.command r.requestNow)
    (db.claimLoop r.command.tenantId (db.selectEligibleRun r.command.tenantId r.requestNow)
      (r.mutationNow :: r.clock)) := rfl
  rw [hexecute] at hperform hissued
  rw [claimLookup_of_unused hfresh.toUnused, hloop] at hmoment
  refine ⟨row, grant, ?_, hmoment, ?_⟩
  · rw [hperform]
    exact hgranted
  · have hkey : proofKey grant.proof = rowKey r.command.tenantId runId := by
      rw [proofKey, hgranted.tenant, hgranted.run]
    simp [issuedBy, hissued, freshProof, hkey]

open Sample in
theorem created_room : ¬ created.Exhausted claimRequest.command claimRequest.mutationNow runId :=
  pair_room created rfl (by decide)

open Sample in
/-- A claim of the sample run, and one after the expiry of its lease, make two tenures. -/
theorem created_tenures :
    let calls := [claimCall claimRequest, claimCall lateClaim]
    (created.tenures (rowKey tenant runId) calls).map Lease.attempt = [1, 2] ∧
      (created.tenures (rowKey tenant runId) calls).Pairwise Lease.Before := by
  intro calls
  obtain ⟨row, grant, hgranted, hmoment, hissued⟩ := claimCall_grants created_fresh
    (first_of_created rfl (created_eligible opening)) created_room
  have hone : created.issuedBy (rowKey tenant runId) (claimCall claimRequest) = [grant.proof] := hissued
  have hrow :
      (created.perform (claimCall claimRequest)).workerLeases.get? (rowKey tenant runId) = some row := by
    rw [hgranted.leases]
    exact Dict.get?_insert_self _ _ _
  have hfresh : (created.perform (claimCall claimRequest)).Fresh lateClaim := by
    have hunused : created.Unused lateClaim :=
      ⟨by decide, rfl, fun _ _ hrow => (by cases hrow), le_rfl⟩
    exact ⟨hgranted.unused hunused (by decide), LeaseClaimId.exact_of_early (by decide)⟩
  -- the first lease lasts for 30 seconds
  have hfirst : (created.perform (claimCall claimRequest)).First tenant lateClaim.requestNow runId := by
    refine first_of_created hgranted.spares.runs ⟨?_, fun other hother _ => ?_⟩
    · rw [hgranted.spares.runs]
      exact created_queued
    · cases hrow.symm.trans hother
      rw [hgranted.expires, DateTime.le_iff, hgranted.expiry]
      decide
  have hroom : ¬ (created.perform (claimCall claimRequest)).Exhausted lateClaim.command
      lateClaim.mutationNow runId := by
    have hcounts := (created.plays (claimCall claimRequest) (rowKey tenant runId)).counts
    have hattempt := hcounts.attempt
    have hversion := hcounts.version
    rw [attemptOf_row hrow, hone, show created.attemptOf (rowKey tenant runId) = 0 from rfl] at hattempt
    rw [versionOf_row hrow, show created.versionOf (rowKey tenant runId) = 0 from rfl] at hversion
    rintro (⟨found, hfound, hfull⟩ | hlate)
    · cases hrow.symm.trans hfound
      rw [hattempt, hversion, maxSignedBigint] at hfull
      split_ifs at hfull <;> simp at hfull
    · exact absurd hlate (by decide)
  obtain ⟨row', grant', hgranted', hmoment', hissued'⟩ := claimCall_grants hfresh hfirst hroom
  have htwo : created.issuedFor (rowKey tenant runId) calls = [grant.proof, grant'.proof] := by
    have hanother : (created.perform (claimCall claimRequest)).issuedBy (rowKey tenant runId)
        (claimCall lateClaim) = [grant'.proof] := hissued'
    simp only [calls, issuedFor, hone, hanother, List.append_nil]
    rfl
  have htimed : created.Timed opening calls := by
    simp only [Timed, calls, moments, hmoment, hmoment', Option.toList_some, List.append_nil]
    decide
  have htenures := (lease_tenures_disjoint opening created (rowKey tenant runId) rfl calls htimed).1
  rw [htwo] at htenures
  exact htenures

/-- The lease of the proof was released, has expired or was replaced. -/
def Fenced (db : Database) (proof : LeaseAuthorityProof) (now : DateTime) : Prop :=
  ∃ row, db.workerLeases.get? (proofKey proof) = some row ∧
    (proof.attemptNo.value < row.attemptNo ∨ proof.attemptNo.value = row.attemptNo ∧ row.lease.Over now)

def TimedUntil (start : DateTime) (db : Database) (calls : List Call) (now : DateTime) : Prop :=
  (start :: (db.moments calls ++ [now])).IsChain (· ≤ ·)

variable {proof : LeaseAuthorityProof} {now start : DateTime}

theorem Fenced.not_authorizes (h : db.Fenced proof now) : ¬ db.Authorizes proof now := by
  intro hauthorizes
  obtain ⟨row, hrow, hover⟩ := h
  obtain ⟨other, hother, hnames, hlive⟩ := hauthorizes.row
  cases hrow.symm.trans hother
  have hattempt := hnames.2.2.2
  rcases hover with hless | ⟨-, hover⟩
  · omega
  · exact hlive hover

theorem row_succeeds {row : WorkerLeaseRow} (hrow : db.workerLeases.get? key = some row) (calls : List Call) :
    ∃ last, (repositories.runFrom db calls).workerLeases.get? key = some last ∧
      Succeeds row.lease last.lease := by
  obtain ⟨hmoves, hfinal⟩ := db.slots_moves calls key
  have hslot : db.slot key = some row.lease := by rw [slot, hrow]; rfl
  rw [hslot] at hmoves hfinal
  obtain ⟨lease, hlease, hsucceeds⟩ := hmoves.succeeds
  rw [hfinal, slot] at hlease
  obtain ⟨last, hlast, rfl⟩ := Option.map_eq_some_iff.mp hlease
  exact ⟨last, hlast, hsucceeds⟩

theorem Fenced.later {calls : List Call} (h : db.Fenced proof start)
    (htimed : db.TimedUntil start calls now) : (repositories.runFrom db calls).Fenced proof now := by
  obtain ⟨row, hrow, hover⟩ := h
  obtain ⟨last, hlast, hsucceeds⟩ := row_succeeds hrow calls
  have hle : row.attemptNo ≤ last.attemptNo := hsucceeds.attempt
  refine ⟨last, hlast, ?_⟩
  rcases hover with hless | ⟨hsame, hover⟩
  · exact .inl (by omega)
  · rcases hle.lt_or_eq with hless | hattempt
    · exact .inl (by omega)
    · right
      obtain ⟨hmoves, hfinal⟩ := db.slots_moves calls (proofKey proof)
      have hslot : db.slot (proofKey proof) = some row.lease := by rw [slot, hrow]; rfl
      rw [hslot] at hmoves hfinal
      rw [TimedUntil, ← slots_times db calls (proofKey proof)] at htimed
      obtain ⟨hclock, hend⟩ := clocked_of_append htimed
      have hfinal' : final (some row.lease) (db.slots (proofKey proof) calls) = some last.lease := by
        rw [hfinal, slot, hlast]
        rfl
      exact ⟨hsame.trans hattempt, (hmoves.over hclock hover hfinal' hattempt).later hend⟩

theorem decodeRun_status {raw : RunRecord} {run : Run} (h : decodeRun raw = .ok run) :
    run.status.value = raw.runStatus := by
  obtain ⟨_, -, h⟩ := bind_eq_ok.mp (mapError_eq_ok.mp h)
  obtain ⟨document, -, h⟩ := bind_eq_ok.mp h
  obtain ⟨decoded, -, h⟩ := bind_eq_ok.mp h
  obtain ⟨_, hchecks, h⟩ := bind_eq_ok.mp h
  cases Except.ok.inj h
  obtain ⟨createdAt, -, hchecks⟩ := bind_eq_ok.mp hchecks
  obtain ⟨updatedAt, -, hchecks⟩ := bind_eq_ok.mp hchecks
  obtain ⟨lastObservedAt, -, hchecks⟩ := bind_eq_ok.mp hchecks
  simp only [require_eq_ok, Bool.and_eq_true, beq_iff_eq] at hchecks
  obtain ⟨⟨⟨⟨⟨⟨-, hstatus⟩, -⟩, -⟩, -⟩, -⟩, -⟩ := hchecks
  exact hstatus

theorem load_eq_some {tenantId : TenantId} {runId : RunId} {run : Run}
    (h : db.load tenantId runId = .ok (some run)) :
    ∃ row, db.runs.get? (rowKey tenantId runId) = some row ∧ run.status.value = row.runStatus := by
  unfold load selectRun at h
  cases hrow : db.runs.get? (rowKey tenantId runId) with
  | none => simp [hrow] at h
  | some row =>
    simp only [hrow, Option.map_some] at h
    obtain ⟨decoded, hdecoded, h⟩ := bind_eq_ok.mp h
    cases Except.ok.inj h
    exact ⟨row, rfl, decodeRun_status hdecoded⟩

theorem Guards.authorizes {c : Candidate} (h : db.Guards proof now c) : db.Authorizes proof now := by
  obtain ⟨htenant, hrunId, current, lease, hload, hlease, hmatches, hreleased, hlive, howned, -⟩ := h
  obtain ⟨run, hrun, hstatus⟩ := load_eq_some hload
  rcases loadLease_cases db proof.tenantId proof.runId with ⟨-, hnone⟩ | ⟨row, other, hrow, hstores, hsome⟩
  · cases Except.ok.inj (hlease.symm.trans hnone)
  · cases Except.ok.inj (hlease.symm.trans hsome)
    obtain ⟨decoded, hdecoded, -⟩ := row.exists_lease proof.tenantId proof.runId
    have hsame : decoded = lease := by
      simp only [loadLease, hrow, hdecoded] at hlease
      exact Option.some.inj (Except.ok.inj hlease)
    rw [hsame] at hdecoded
    refine ⟨_, getAuthority_of_rows hrow hrun hdecoded now, ?_⟩
    exact evaluateAuthority_eq_true.mpr ⟨hmatches, hreleased, hstatus ▸ howned, hlive⟩

/-- What one guarded commit does to any store: it stores something new only under the authority
    of its proof at its own reading, and otherwise leaves the store; no lease is ever touched. -/
structure StoresFenced (db : Database) (proof : LeaseAuthorityProof) (now : DateTime) (c : Candidate) :
    Prop where
  guarded : ∀ outcome, (db.commitWithLease proof now c).2 = .ok outcome → outcome.replayed = false →
    db.Guards proof now c ∧ db.Authorizes proof now
  replayed : ∀ outcome, (db.commitWithLease proof now c).2 = .ok outcome → outcome.replayed = true →
    (db.commitWithLease proof now c).1 = db
  rejected : ∀ e, (db.commitWithLease proof now c).2 = .error e → (db.commitWithLease proof now c).1 = db
  leases : (db.commitWithLease proof now c).1.workerLeases = db.workerLeases ∧
    (db.commitWithLease proof now c).1.workerLeaseClaimReceipts = db.workerLeaseClaimReceipts

theorem storesFenced (db : Database) (proof : LeaseAuthorityProof) (now : DateTime) (c : Candidate) :
    db.StoresFenced proof now c := by
  have hcommits := db.commitWithLease_commits proof now c
  generalize hresult : db.commitWithLease proof now c = result at hcommits
  have hleases := hcommits.leases
  rw [← hresult] at hleases
  constructor
  · rw [hresult]
    intro outcome houtcome hnew
    cases hcommits with
    | rejected => cases houtcome
    | replayed other hreplayed =>
      cases Except.ok.inj houtcome
      rw [hnew] at hreplayed
      cases hreplayed
    | stored next other hguard => exact ⟨hguard, hguard.authorizes⟩
  · rw [hresult]
    intro outcome houtcome hreplayed
    cases hcommits with
    | rejected => rfl
    | replayed => rfl
    | stored next other _ hstored =>
      cases Except.ok.inj houtcome
      rw [hstored.replayed] at hreplayed
      cases hreplayed
  · rw [hresult]
    intro e he
    cases hcommits with
    | rejected => rfl
    | replayed => rfl
    | stored => cases he
  · exact hleases

/-- The guarded commit of this proof stores something new. -/
def StoresUnder (db : Database) (proof : LeaseAuthorityProof) (now : DateTime) (c : Candidate) : Prop :=
  ∃ outcome, (db.commitWithLease proof now c).2 = .ok outcome ∧ outcome.replayed = false

theorem StoresUnder.row {c : Candidate} (h : db.StoresUnder proof now c) :
    ∃ row, db.workerLeases.get? (proofKey proof) = some row ∧ row.attemptNo = proof.attemptNo.value := by
  obtain ⟨outcome, houtcome, hnew⟩ := h
  obtain ⟨row, hrow, hnames, -⟩ := ((db.storesFenced proof now c).guarded outcome houtcome hnew).2.row
  exact ⟨row, hrow, hnames.2.2.2⟩

/-- Guarded commits store under the authority of their proofs, and in every history the attempts
    under which a run is written never go back. -/
theorem guarded_commits_are_fenced (db : Database) :
    (∀ proof now c, db.StoresFenced proof now c) ∧
    ∀ proof now c calls other later d, proofKey other = proofKey proof → db.StoresUnder proof now c →
      (repositories.runFrom (db.perform (.commitWithLease proof now c)) calls).StoresUnder other later d →
        proof.attemptNo.value ≤ other.attemptNo.value := by
  refine ⟨db.storesFenced, fun proof now c calls other later d hkey hstores hlater => ?_⟩
  obtain ⟨row, hrow, hattempt⟩ := hstores.row
  obtain ⟨otherRow, hotherRow, hotherAttempt⟩ := hlater.row
  rw [← run_cons, hkey] at hotherRow
  obtain ⟨last, hlast, hsucceeds⟩ := row_succeeds hrow (.commitWithLease proof now c :: calls)
  cases hotherRow.symm.trans hlast
  have hle : row.attemptNo ≤ otherRow.attemptNo := hsucceeds.attempt
  omega

/-- A proof whose lease was released, has expired or was replaced stays without authority in every
    history, and no guarded commit under it ever stores anything. -/
theorem fenced_proofs_never_write (start : DateTime) (db : Database) (proof : LeaseAuthorityProof)
    (hfenced : db.Fenced proof start) (calls : List Call) (now : DateTime)
    (htimed : db.TimedUntil start calls now) :
    let after := repositories.runFrom db calls
    after.Fenced proof now ∧ ¬ after.Authorizes proof now ∧ ∀ c, ¬ after.StoresUnder proof now c ∧
      (after.commitWithLease proof now c).1 = after := by
  have hlater := hfenced.later htimed
  refine ⟨hlater, hlater.not_authorizes, fun c => ?_⟩
  have hstores := (repositories.runFrom db calls).storesFenced proof now c
  have hnever : ¬ (repositories.runFrom db calls).StoresUnder proof now c := by
    rintro ⟨outcome, houtcome, hnew⟩
    exact hlater.not_authorizes (hstores.guarded outcome houtcome hnew).2
  refine ⟨hnever, ?_⟩
  cases hresult : ((repositories.runFrom db calls).commitWithLease proof now c).2 with
  | error e => exact hstores.rejected e hresult
  | ok outcome =>
    cases hreplayed : outcome.replayed with
    | true => exact hstores.replayed outcome hresult hreplayed
    | false => exact absurd ⟨outcome, hresult, hreplayed⟩ hnever

open Sample in
/-- After the expiry of the sample lease, its proof writes nothing. -/
theorem expired_proof_never_writes :
    let expiry := leaseRow.leaseExpiresAt
    let after := repositories.runFrom leased [.renew renewal expiry]
    after.Fenced Sample.proof expiry ∧ ¬ after.Authorizes Sample.proof expiry ∧
      ∀ c, ¬ after.StoresUnder Sample.proof expiry c ∧
        (after.commitWithLease Sample.proof expiry c).1 = after := by
  have hfenced : leased.Fenced Sample.proof leaseRow.leaseExpiresAt :=
    ⟨leaseRow, leased_workerLeases, .inr ⟨rfl, .inr le_rfl⟩⟩
  have htimed : leased.TimedUntil leaseRow.leaseExpiresAt [.renew renewal leaseRow.leaseExpiresAt]
      leaseRow.leaseExpiresAt :=
    List.isChain_cons_cons.mpr ⟨le_rfl, List.isChain_cons_cons.mpr ⟨le_rfl, .singleton _⟩⟩
  exact fenced_proofs_never_write _ leased Sample.proof hfenced _ _ htimed

end Database
end Zhiyi
