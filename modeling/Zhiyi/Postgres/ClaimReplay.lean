import Zhiyi.Postgres.LeaseHistory

set_option autoImplicit false

/-! Claims under one claim id over whole histories: the receipt of the first one stays,
and every later or racing one replays it and writes nothing. -/
namespace Zhiyi
open Python Interleaving

namespace Database
variable {db : Database}

def Receipted (db : Database) (receipt : WorkerLeaseClaimReceiptRecord) : Prop :=
  db.workerLeaseClaimReceipts.get? (claimRowKey receipt.tenantId receipt.claimId) =
    some ((encodeClaimReceipt receipt).toClaimReceiptColumns.map ZonedDateTime.instant)

variable {receipt : WorkerLeaseClaimReceiptRecord}

theorem Receipted.congr {next : Database} (h : db.Receipted receipt)
    (hsame : next.workerLeaseClaimReceipts = db.workerLeaseClaimReceipts) : next.Receipted receipt := by
  rw [Receipted, hsame]
  exact h

theorem Receipted.putClaimReceipt (h : db.Receipted receipt) {other : WorkerLeaseClaimReceiptRecord}
    (hfree : db.workerLeaseClaimReceipts.get? (claimRowKey other.tenantId other.claimId) = none) :
    (db.putClaimReceipt other).Receipted receipt := by
  unfold Receipted Database.putClaimReceipt
  simp only
  rw [Dict.get?_insert]
  split_ifs with hkey
  · rw [Receipted, hkey, hfree] at h
    cases h
  · exact h

theorem Mutates.receipts {proof : LeaseAuthorityProof} {expectedVersion : LeaseVersion} {now : DateTime}
    {result : Database × Except Failure ConditionalLeaseOutcome}
    (h : db.Mutates proof expectedVersion now result) :
    result.1.workerLeaseClaimReceipts = db.workerLeaseClaimReceipts := by
  cases h with
  | refused | applied => rfl

theorem Receipted.claim {command : ClaimLeaseCommand} {token : LeaseToken} {requestNow : DateTime}
    {clock : List DateTime} {result : Option (Database × Except Failure LeaseClaimOutcome)}
    (h : db.Receipted receipt) (hclaims : db.Claims command token requestNow clock result) :
    ((result.map Prod.fst).getD db).Receipted receipt := by
  cases hclaims with
  | unanswered | failed | replayed => exact h
  | noWork now other hselects hreceipt hfree =>
    obtain ⟨issuedAt, replayExpiresAt, hfields⟩ := claimReceipt_fields hreceipt
    exact h.putClaimReceipt (by rw [hfields]; exact hfree)
  | granted now runId row other grant current lease hselects hgrants hfree =>
    obtain ⟨issuedAt, replayExpiresAt, hfields⟩ := claimReceipt_fields hgrants.receipted
    exact (h.congr rfl : (db.putLease command.tenantId runId row).Receipted receipt).putClaimReceipt
      (by rw [hfields]; exact hfree)

theorem Receipted.perform (h : db.Receipted receipt) (call : Call) : (db.perform call).Receipted receipt := by
  cases call with
  | commit c => exact h.congr (db.commit_commits c).leases.2
  | commitWithLease proof now c => exact h.congr (db.commitWithLease_commits proof now c).leases.2
  | renew command now => exact h.congr (db.renew_mutates command now).receipts
  | release command now => exact h.congr (db.release_mutates command now).receipts
  | claim command token requestNow clock raceNow =>
    exact h.claim (db.claim_claims command token requestNow clock raceNow)

theorem Receipted.run (h : db.Receipted receipt) (calls : List Call) :
    (repositories.runFrom db calls).Receipted receipt :=
  Machine.Invariant.runFrom (P := fun db : Database => db.Receipted receipt) (fun _ call h => h.perform call)
    h calls

/-- The answer to a repeated claim: the first outcome, and whether its lease is authoritative now. -/
structure Replays (db : Database) (outcome : LeaseClaimOutcome) (now : DateTime)
    (answer : Except Failure LeaseClaimOutcome) : Prop where
  noWork : outcome.grant = none → answer = .ok ⟨none, true⟩
  claimed : ∀ grant, outcome.grant = some grant → ∃ replay : LeaseGrant, answer = .ok ⟨some replay, true⟩ ∧
    replay.toLeaseGrantFields =
      { grant.toLeaseGrantFields with currentlyAuthoritative := replay.currentlyAuthoritative } ∧
    (replay.currentlyAuthoritative = true ↔ db.Authorizes grant.proof now)

structure ReceiptOf (receipt : WorkerLeaseClaimReceiptRecord) (command : ClaimLeaseCommand)
    (outcome : LeaseClaimOutcome) : Prop where
  tenant : receipt.tenantId = command.tenantId
  claim : receipt.claimId = command.claimId
  worker : receipt.workerId = command.workerId
  duration : receipt.duration = command.duration
  intent : receipt.intentFingerprint = command.intentFingerprint
  noWork : outcome.grant = none → receipt.outcome = .noWork
  claimed : ∀ grant, outcome.grant = some grant →
    receipt.outcome = .claimed ∧ grantFromReceipt receipt true = .ok grant

theorem receipted_of_fresh {command : ClaimLeaseCommand} {token : LeaseToken} {requestNow : DateTime}
    {clock : List DateTime} {next : Database} {outcome : LeaseClaimOutcome}
    (h : db.Claims command token requestNow clock (some (next, .ok outcome)))
    (hfresh : outcome.replayed = false) :
    ∃ receipt, next.Receipted receipt ∧ ReceiptOf receipt command outcome := by
  cases h with
  | replayed now _ hlookup =>
    have hreplayed := replayed_of_lookup hlookup
    rw [hfresh] at hreplayed
    cases hreplayed
  | noWork now receipt hselects hreceipt hfree =>
    obtain ⟨issuedAt, replayExpiresAt, hfields⟩ := claimReceipt_fields hreceipt
    refine ⟨receipt, Dict.get?_insert_self _ _ _, ?_⟩
    constructor
    all_goals try rw [hfields]
    · intro _
      rfl
    · intro _ hgrant
      cases hgrant
  | granted now runId row receipt grant current lease hselects hgrants hfree =>
    obtain ⟨issuedAt, replayExpiresAt, hfields⟩ := claimReceipt_fields hgrants.receipted
    refine ⟨receipt, Dict.get?_insert_self _ _ _, ?_⟩
    constructor
    all_goals try rw [hfields]
    · intro hgrant
      cases hgrant
    · rintro _ ⟨⟩
      exact ⟨rfl, hgrants.granted⟩

theorem decode_stored (receipt : WorkerLeaseClaimReceiptRecord) :
    decodeClaimReceipt {
      ((encodeClaimReceipt receipt).toClaimReceiptColumns.map ZonedDateTime.instant).map utc with
      tenantId := receipt.tenantId.value, claimId := receipt.claimId.value } = .ok receipt := by
  have hinstant : ∀ d : DateTime, (utc d).instant = d := fun _ => rfl
  have hsame : ({
      ((encodeClaimReceipt receipt).toClaimReceiptColumns.map ZonedDateTime.instant).map utc with
      tenantId := receipt.tenantId.value, claimId := receipt.claimId.value } : ClaimReceiptMapping) =
      encodeClaimReceipt receipt := by
    simp only [ClaimReceiptColumns.map, encodeClaimReceipt, hinstant, Option.map_map, Function.comp_def]
  rw [hsame]
  exact decodeClaimReceipt_encodeClaimReceipt receipt

theorem loadReceipt_of_receipted {command again : ClaimLeaseCommand} {outcome : LeaseClaimOutcome}
    (h : db.Receipted receipt) (hof : ReceiptOf receipt command outcome)
    (htenant : again.tenantId = command.tenantId) (hclaim : again.claimId = command.claimId) :
    db.loadReceipt again =
      if again.workerId = command.workerId ∧ again.duration = command.duration then .ok (some receipt)
      else .error (.lease .idempotencyConflict) := by
  have hkey : claimRowKey again.tenantId again.claimId = claimRowKey receipt.tenantId receipt.claimId := by
    rw [htenant, hclaim, hof.tenant, hof.claim]
  have hvalues : again.tenantId.value = receipt.tenantId.value ∧
      again.claimId.value = receipt.claimId.value := by
    rw [htenant, hclaim, hof.tenant, hof.claim]
    exact ⟨rfl, rfl⟩
  have hstored : (ClaimLeaseCommand.mk receipt.tenantId receipt.workerId receipt.claimId
      receipt.duration).intentFingerprint = receipt.intentFingerprint := by
    rw [hof.intent]
    unfold ClaimLeaseCommand.intentFingerprint
    rw [hof.worker, hof.duration]
  unfold loadReceipt
  rw [hkey, h]
  simp only [hvalues.1, hvalues.2, decode_stored, bind, Except.bind, hstored, beq_self_eq_true, require_true]
  by_cases hintent : again.workerId = command.workerId ∧ again.duration = command.duration
  · have hsame : receipt.intentFingerprint = again.intentFingerprint := by
      rw [hof.intent]
      unfold ClaimLeaseCommand.intentFingerprint
      rw [hintent.1, hintent.2]
    rw [if_pos hintent, hof.worker, hof.duration, hintent.1, hintent.2, hsame]
    simp only [beq_self_eq_true, Bool.and_self, require_true]
    rfl
  · rw [if_neg hintent, hof.worker, hof.duration]
    have hdiffers : (command.workerId == again.workerId && command.duration == again.duration) = false := by
      rw [Bool.eq_false_iff]
      intro hsame
      simp only [Bool.and_eq_true, beq_iff_eq] at hsame
      exact hintent ⟨hsame.1.symm, hsame.2.symm⟩
    rw [hdiffers, Bool.false_and, require_false]

theorem exists_authority (db : Database) (proof : LeaseAuthorityProof) (now : DateTime) :
    ∃ authority, db.getAuthority proof now = .ok authority := by
  cases hrow : db.workerLeases.get? (rowKey proof.tenantId proof.runId) with
  | none => exact ⟨_, getAuthority_of_none (.inl hrow) now⟩
  | some row =>
    cases hrun : db.runs.get? (rowKey proof.tenantId proof.runId) with
    | none => exact ⟨_, getAuthority_of_none (.inr hrun) now⟩
    | some run =>
      obtain ⟨lease, hlease, -⟩ := row.exists_lease proof.tenantId proof.runId
      exact ⟨_, getAuthority_of_rows hrow hrun hlease now⟩

theorem grantFromReceipt_again {grant : LeaseGrant} (h : grantFromReceipt receipt true = .ok grant)
    (authoritative : Bool) : ∃ result replay, claimedResult receipt = .ok result ∧
      grant.proof = receiptProof receipt result ∧ grantFromReceipt receipt authoritative = .ok replay ∧
      replay.toLeaseGrantFields =
        { grant.toLeaseGrantFields with currentlyAuthoritative := authoritative } := by
  obtain ⟨result, hresult, h⟩ := bind_eq_ok.mp h
  obtain ⟨renewBy, hrenew, h⟩ := bind_eq_ok.mp h
  rw [raising_eq_ok] at h
  obtain ⟨hvalid, rfl⟩ := construct_eq_ok h
  let fields : LeaseGrantFields := ⟨receiptProof receipt result, result.initialLeaseVersion,
    receipt.duration, result.leaseAcquiredAt, result.leaseAcquiredAt, result.leaseExpiresAt, renewBy,
    authoritative⟩
  have hfields : fields.postInit = .ok () := hvalid
  refine ⟨result, ⟨fields, hfields⟩, hresult, rfl, ?_, rfl⟩
  exact bind_eq_ok.mpr ⟨result, hresult, bind_eq_ok.mpr ⟨renewBy, hrenew,
    raising_eq_ok.mpr (construct_of_ok _ hfields)⟩⟩

theorem outcomeFromReceipt_replays {command : ClaimLeaseCommand} {outcome : LeaseClaimOutcome}
    (hof : ReceiptOf receipt command outcome) (now : DateTime) :
    ∃ replay, db.outcomeFromReceipt receipt now = .ok replay ∧ db.Replays outcome now (.ok replay) := by
  unfold outcomeFromReceipt
  cases hgrant : outcome.grant with
  | none =>
    rw [hof.noWork hgrant]
    exact ⟨_, rfl, fun _ => rfl, fun grant h => by cases hgrant.symm.trans h⟩
  | some grant =>
    obtain ⟨hclaimed, hfrom⟩ := hof.claimed grant hgrant
    obtain ⟨result, _, hresult, hproof, -, -⟩ := grantFromReceipt_again hfrom true
    obtain ⟨authority, hauthority⟩ := db.exists_authority grant.proof now
    obtain ⟨_, replay, hagain, -, hreplay, hfields⟩ := grantFromReceipt_again hfrom authority.authoritative
    have hcurrent : db.receiptIsCurrent receipt result now = .ok authority.authoritative := by
      rw [receiptIsCurrent_eq_authority, ← hproof, hauthority]
      rfl
    rw [hclaimed]
    refine ⟨⟨some replay, true⟩, ?_, ⟨fun h => (by cases hgrant.symm.trans h), fun other hother => ?_⟩⟩
    · exact bind_eq_ok.mpr ⟨result, hresult, bind_eq_ok.mpr ⟨_, hcurrent,
        bind_eq_ok.mpr ⟨replay, hreplay, rfl⟩⟩⟩
    · cases hgrant.symm.trans hother
      have hview : replay.currentlyAuthoritative = authority.authoritative := by rw [hfields]
      refine ⟨replay, rfl, by rw [hview]; exact hfields, ?_⟩
      rw [hview]
      constructor
      · exact fun h => ⟨authority, hauthority, h⟩
      · rintro ⟨found, hfound, hauthoritative⟩
        cases Except.ok.inj (hauthority.symm.trans hfound)
        exact hauthoritative

/-- What a claim answers once the receipt of its claim id is stored. -/
structure Answers (db : Database) (command : ClaimLeaseCommand) (outcome : LeaseClaimOutcome)
    (again : ClaimLeaseCommand) (now : DateTime) (answer : Except Failure LeaseClaimOutcome) : Prop where
  late : ∀ e, validateClaimAge again.claimId now = .error e → answer = .error e
  same : validateClaimAge again.claimId now = .ok () → again.workerId = command.workerId →
    again.duration = command.duration → db.Replays outcome now answer
  other : validateClaimAge again.claimId now = .ok () →
    ¬ (again.workerId = command.workerId ∧ again.duration = command.duration) →
      answer = .error (.lease .idempotencyConflict)

/-- The lookup of a claim whose claim id has a receipt never comes back empty. -/
theorem claimLookup_answers {command again : ClaimLeaseCommand} {outcome : LeaseClaimOutcome}
    (h : db.Receipted receipt) (hof : ReceiptOf receipt command outcome)
    (htenant : again.tenantId = command.tenantId) (hclaim : again.claimId = command.claimId)
    (now : DateTime) : ∃ answer, db.Answers command outcome again now answer ∧
      db.claimLookup again now = answer.map some := by
  have hload := loadReceipt_of_receipted h hof htenant hclaim
  cases hage : validateClaimAge again.claimId now with
  | error e =>
    refine ⟨.error e, ⟨fun other hother => ?_, fun h => ?_, fun h => ?_⟩, ?_⟩
    · cases hage.symm.trans hother
      rfl
    · cases hage.symm.trans h
    · cases hage.symm.trans h
    · rw [claimLookup, hage]
      rfl
  | ok =>
    by_cases hintent : again.workerId = command.workerId ∧ again.duration = command.duration
    · obtain ⟨replay, hreplay, hreplays⟩ := db.outcomeFromReceipt_replays hof now
      refine ⟨.ok replay, ⟨fun e he => ?_, fun _ _ _ => hreplays, fun _ h => absurd hintent h⟩, ?_⟩
      · cases hage.symm.trans he
      · rw [if_pos hintent] at hload
        exact bind_eq_ok.mpr ⟨(), hage, bind_eq_ok.mpr ⟨_, hload, bind_eq_ok.mpr ⟨replay, hreplay, rfl⟩⟩⟩
    · refine ⟨.error (.lease .idempotencyConflict), ⟨fun e he => ?_, fun _ hworker hduration => ?_,
        fun _ _ => rfl⟩, ?_⟩
      · cases hage.symm.trans he
      · exact absurd ⟨hworker, hduration⟩ hintent
      · rw [if_neg hintent] at hload
        rw [claimLookup, hage, receiptLookup, hload]
        rfl

/-- A claim whose receipt lookup saw one store, and whose loop and writes run in another. -/
def claimAcross (seen db : Database) (command : ClaimLeaseCommand) (token : LeaseToken)
    (requestNow : DateTime) (clock : List DateTime) (raceNow : DateTime) :
    Option (Database × Except Failure LeaseClaimOutcome) :=
  let result : Option (Except ClaimRaised (Database × LeaseClaimOutcome)) :=
    match seen.claimLookup command requestNow with
    | .error e => some (.error (.raised (.failure e)))
    | .ok (some outcome) => some (.ok (db, outcome))
    | .ok none => db.claimFresh command token requestNow clock
  result.map fun
    | .ok (next, outcome) => (next, .ok outcome)
    | .error .raceLost => (db, db.replayAfterRace command raceNow)
    | .error (.raised e) => (db, .error (claimFailure e))

theorem claim_eq_across (db : Database) (command : ClaimLeaseCommand) (token : LeaseToken)
    (requestNow : DateTime) (clock : List DateTime) (raceNow : DateTime) :
    db.claim command token requestNow clock raceNow =
      db.claimAcross db command token requestNow clock raceNow := by
  rw [claim, claimTransaction_def]
  unfold claimAcross
  beta_reduce
  generalize db.claimLookup command requestNow = found
  rcases found with e | (_ | outcome) <;> rfl

theorem claimLoop_ne_error {tenantId : TenantId} {selected : Option RunId} {clock : List DateTime}
    {e : Failure} : db.claimLoop tenantId selected clock ≠ some (.error e) := by
  induction clock generalizing selected with
  | nil => cases selected <;> simp [claimLoop]
  | cons reading clock ih =>
    cases selected with
    | none => simp [claimLoop]
    | some runId =>
      obtain ⟨current, hload⟩ : ∃ current, db.loadLease tenantId runId = .ok current := by
        rcases loadLease_cases db tenantId runId with ⟨-, hload⟩ | ⟨row, lease, -, -, hload⟩
        · exact ⟨none, hload⟩
        · exact ⟨some lease, hload⟩
      simp only [claimLoop, hload]
      split_ifs
      · simp
      · exact ih

/-- The run that the loop of a claim ends with, if it ends with one, has a next lease. -/
def Continuable (db : Database) (command : ClaimLeaseCommand) (requestNow : DateTime) (clock : List DateTime) :
    Prop :=
  ∀ runId current now, db.claimLoop command.tenantId (db.selectEligibleRun command.tenantId requestNow)
    clock.tail = some (.ok (some (runId, current), now)) → ¬ db.Exhausted command now runId

variable {r : ClaimRequest}

theorem insertClaimReceipt_taken {result : Option ClaimedResult} (h : Receipts r result receipt)
    (htaken : db.workerLeaseClaimReceipts.get? (claimRowKey r.command.tenantId r.command.claimId) ≠ none) :
    db.insertClaimReceipt receipt = .error .raceLost := by
  obtain ⟨columns, hcolumns⟩ := Option.ne_none_iff_exists'.mp htaken
  unfold insertClaimReceipt
  simp only [h.tenant, h.claim, hcolumns]

theorem hasRun_of_claimable {tenantId : TenantId} {runId : RunId} {current : Option WorkerLeaseRecord}
    {now : DateTime} (h : db.isClaimable tenantId runId current now = true) :
    db.hasRun tenantId runId = true := by
  rw [isClaimable, Bool.and_eq_true] at h
  unfold hasRun
  cases hrun : db.runs.get? (rowKey tenantId runId) with
  | none => simp [hrun] at h
  | some run => rfl

theorem claimWrite_taken {selected : Option (RunId × Option WorkerLeaseRecord)}
    (hage : validateClaimAge r.command.claimId r.requestNow = .ok ())
    (htaken : db.workerLeaseClaimReceipts.get? (claimRowKey r.command.tenantId r.command.claimId) ≠ none)
    (hselected : ∀ runId current, selected = some (runId, current) →
      db.loadLease r.command.tenantId runId = .ok current ∧
        db.isClaimable r.command.tenantId runId current r.mutationNow = true) :
    ((∀ runId current, selected = some (runId, current) → ¬ db.Exhausted r.command r.mutationNow runId) ∧
      db.claimWrite r.command r.token selected r.mutationNow = .error .raceLost) ∨
    ∃ runId current, selected = some (runId, current) ∧ db.Exhausted r.command r.mutationNow runId ∧
      ∃ e, db.claimWrite r.command r.token selected r.mutationNow =
        .error (.raised (.failure (.python e))) := by
  cases selected with
  | none =>
    obtain ⟨receipt, hreceipts, hwrite⟩ := claimWrite_nothing db hage
    have hinsert := insertClaimReceipt_taken hreceipts htaken
    exact .inl ⟨by simp, by rw [hwrite, hinsert]; rfl⟩
  | some found =>
    obtain ⟨runId, current⟩ := found
    obtain ⟨hload, hclaimable⟩ := hselected runId current rfl
    obtain ⟨loaded, hloaded, hsome, -, hnext⟩ := nextLease_continues db r runId
    cases hload.symm.trans hloaded
    cases hnext with
    | exhausted e hfull hnext => exact .inr ⟨runId, current, rfl, hfull, e, claimWrite_of_exhausted hnext⟩
    | leases lease hroom hnext hl =>
      refine .inl ⟨fun _ _ hsame => by cases hsame; exact hroom, ?_⟩
      have hrun := hasRun_of_claimable hclaimable
      obtain ⟨row, hstore, -⟩ := storeLease_eq hl hsome hrun
      obtain ⟨receipt, hreceipts, hwrite⟩ := claimWrite_leases db hage hnext hl
      rw [hwrite]
      split_ifs at hstore with hother
      · exact bind_eq_error.mpr (.inl hstore)
      · have hinsert :
            (db.putLease r.command.tenantId runId row).insertClaimReceipt receipt = .error .raceLost :=
          insertClaimReceipt_taken hreceipts htaken
        exact bind_eq_error.mpr (.inr ⟨_, hstore, bind_eq_error.mpr (.inl hinsert)⟩)

theorem claimFresh_taken {again : ClaimLeaseCommand} {token : LeaseToken} {now : DateTime}
    {readings : List DateTime} {ended : Except ClaimRaised (Database × LeaseClaimOutcome)}
    (hage : validateClaimAge again.claimId now = .ok ())
    (htaken : db.workerLeaseClaimReceipts.get? (claimRowKey again.tenantId again.claimId) ≠ none)
    (hended : db.claimFresh again token now readings = some ended) :
    (db.Continuable again now readings ∧ ended = .error .raceLost) ∨
      (¬ db.Continuable again now readings ∧ ∃ e, ended = .error (.raised (.failure (.python e)))) := by
  unfold claimFresh at hended
  split at hended
  · cases hended
  · next e hloop => exact absurd hloop claimLoop_ne_error
  · next selected t hloop =>
    cases Option.some.inj hended
    have hcases := @claimWrite_taken db ⟨again, token, now, now, t, [], now⟩ selected hage htaken
      fun runId current hsame => claimLoop_selects (hsame ▸ hloop)
    rcases hcases with ⟨hroom, hlost⟩ | ⟨runId, current, rfl, hfull, e, hraised⟩
    · refine .inl ⟨fun runId current at' hsame => ?_, hlost⟩
      cases hloop.symm.trans hsame
      exact hroom runId current rfl
    · exact .inr ⟨fun hroom => hroom runId current t hloop hfull, e, hraised⟩

/-- Once a claim has a fresh outcome, every later claim under its claim id replays it, whatever
    happened in between, or conflicts, and one that looked the receipt up too early loses its race
    and does the same, unless the run it selected has no next lease: none of them writes anything. -/
theorem claims_are_idempotent (db next : Database) (command : ClaimLeaseCommand) (token : LeaseToken)
    (requestNow : DateTime) (clock : List DateTime) (raceNow : DateTime) (outcome : LeaseClaimOutcome)
    (hclaim : db.claim command token requestNow clock raceNow = some (next, .ok outcome))
    (hfresh : outcome.replayed = false) (calls : List Call) (again : ClaimLeaseCommand)
    (htenant : again.tenantId = command.tenantId) (hid : again.claimId = command.claimId)
    (otherToken : LeaseToken) (now : DateTime) (readings : List DateTime) (otherNow : DateTime) :
    let later := repositories.runFrom next calls
    (∃ answer, later.claim again otherToken now readings otherNow = some (later, answer) ∧
      later.Answers command outcome again now answer) ∧
    ∀ (seen : Database) (result : Database × Except Failure LeaseClaimOutcome),
      seen.claimLookup again now = .ok none →
      seen.claimAcross later again otherToken now readings otherNow = some result → result.1 = later ∧
        (later.Continuable again now readings → later.Answers command outcome again otherNow result.2) ∧
        (¬ later.Continuable again now readings → ∃ e, result.2 = .error (.python e)) := by
  have hclaims := db.claim_claims command token requestNow clock raceNow
  rw [hclaim] at hclaims
  obtain ⟨receipt, hstored, hof⟩ := receipted_of_fresh hclaims hfresh
  have hlater := hstored.run calls
  generalize repositories.runFrom next calls = later at hlater
  constructor
  · obtain ⟨answer, hanswers, hlookup⟩ := claimLookup_answers hlater hof htenant hid now
    refine ⟨answer, ?_, hanswers⟩
    rw [claim_eq_across, claimAcross, hlookup]
    cases answer with
    | error e => rfl
    | ok replay => rfl
  · intro seen result hseen hresult
    obtain ⟨answer, hanswers, hlookup⟩ := claimLookup_answers hlater hof htenant hid otherNow
    have hreplay : later.replayAfterRace again otherNow = answer := by
      rw [replayAfterRace, hlookup]
      cases answer with
      | error e => rfl
      | ok replay => rfl
    obtain ⟨_, hage, -⟩ := bind_eq_ok.mp hseen
    have htaken : later.workerLeaseClaimReceipts.get? (claimRowKey again.tenantId again.claimId) ≠ none := by
      rw [htenant, hid, ← hof.tenant, ← hof.claim, hlater]
      simp
    rw [claimAcross, hseen] at hresult
    simp only at hresult
    obtain ⟨ended, hended, hresult⟩ := Option.map_eq_some_iff.mp hresult
    rcases claimFresh_taken hage htaken hended with ⟨hroom, rfl⟩ | ⟨hfull, e, rfl⟩
    · cases hresult
      exact ⟨rfl, fun _ => hreplay.symm ▸ hanswers, fun hfull => absurd hroom hfull⟩
    · cases hresult
      exact ⟨rfl, fun hroom => absurd hroom hfull, fun _ => ⟨e, rfl⟩⟩

open Sample in
/-- The claim of the sample run, repeated after a release of its lease, and repeated by one that looked
    its receipt up before the first one stored it. -/
theorem created_claim_replays : ∃ next grant,
    created.execute claimRequest = some (next, .ok ⟨some grant, false⟩) ∧
    (∃ answer, (repositories.runFrom next [.release ⟨grant.proof, .one⟩ opening]).claim claimRequest.command
        token opening [] opening =
      some (repositories.runFrom next [.release ⟨grant.proof, .one⟩ opening], answer) ∧
      (repositories.runFrom next [.release ⟨grant.proof, .one⟩ opening]).Answers claimRequest.command
        ⟨some grant, false⟩ claimRequest.command opening answer) ∧
    ∃ result, created.claimAcross next claimRequest.command token opening [opening, opening] opening =
      some result ∧ result.1 = next ∧
        next.Answers claimRequest.command ⟨some grant, false⟩ claimRequest.command opening result.2 := by
  obtain ⟨next, row, grant, hexecute, hgranted⟩ := execute_first created_fresh
    (first_of_created rfl (created_eligible opening)) created_room
  refine ⟨next, grant, hexecute, ?_, ?_⟩
  · exact (claims_are_idempotent created next claimRequest.command claimRequest.token claimRequest.requestNow
      (claimRequest.unusedNow :: claimRequest.mutationNow :: claimRequest.clock) claimRequest.raceNow
      ⟨some grant, false⟩ hexecute rfl [.release ⟨grant.proof, .one⟩ opening] claimRequest.command rfl rfl
      token opening [] opening).1
  · have hempty : next.queue tenant opening = [] := by
      refine List.eq_nil_iff_forall_not_mem.mpr fun other hother => ?_
      obtain ⟨heligible, hne⟩ := (hgranted.eligible_iff hgranted.late).mp (mem_queue.mp hother)
      obtain ⟨run, hrun, -⟩ := heligible.queued
      exact hne (created_runs hrun).1
    have hloop : next.claimLoop claimRequest.command.tenantId
        (next.selectEligibleRun claimRequest.command.tenantId opening) [opening, opening].tail =
          some (.ok (none, opening)) := by
      rw [selectEligibleRun_eq, show next.queue claimRequest.command.tenantId opening = [] from hempty]
      rfl
    have hroom : next.Continuable claimRequest.command opening [opening, opening] := by
      intro runId current now hsome
      cases hloop.symm.trans hsome
    have hseen : created.claimLookup claimRequest.command opening = .ok none :=
      claimLookup_of_unused created_fresh.toUnused
    obtain ⟨result, hresult⟩ : ∃ result,
        created.claimAcross next claimRequest.command token opening [opening, opening] opening =
          some result := by
      have hfresh : next.claimFresh claimRequest.command token opening [opening, opening] =
          some (next.claimWrite claimRequest.command token none opening) := by
        rw [claimFresh, hloop]
      refine Option.isSome_iff_exists.mp ?_
      rw [claimAcross, hseen]
      simp only [hfresh, Option.map_some, Option.isSome_some]
    obtain ⟨hsame, hanswers, -⟩ := (claims_are_idempotent created next claimRequest.command claimRequest.token
      claimRequest.requestNow (claimRequest.unusedNow :: claimRequest.mutationNow :: claimRequest.clock)
      claimRequest.raceNow ⟨some grant, false⟩ hexecute rfl [] claimRequest.command rfl rfl
      token opening [opening, opening] opening).2 created result hseen hresult
    exact ⟨result, hresult, hsame, hanswers hroom⟩

end Database
end Zhiyi
